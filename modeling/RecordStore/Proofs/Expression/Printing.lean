import RecordStore.Proofs.Expression.Parsing
import RecordStore.Proofs.Number.Digits

/-!
# Paths that are read back

`Token.CommasOf Token.PathOf` is the grammar of projections, and **`Path.parseList_eq_ok_iff`** says that a text is read
as some paths just if it is written for tokens that are such a list.

`Path.Written p` says that the names along a path are `IsPathName`, that is a `#` and a word, or a word that is no
keyword and begins with no digit, and that its indexes fit 64 bits. Such a path is written for tokens of it
(`Path.Written.tokens`), piece by piece: a name or a number ends where the next step begins, which `Token.Continues`
carries along the steps. What is read is written so, since no other names and numbers are cut out of a text
(`Token.Scans.spelled`).

**`Path.printed_paths_read`**: the paths that a text is read as are read again from their own text, and a path is read
from its text just if it is written with such names.
-/

namespace RecordStore

/-- A name that can stand in a path: a `#` and a word, or a word that is no keyword and begins with no digit. -/
inductive IsPathName : String → Prop
  | nameAlias {w : List Char} : Token.IsWord w → IsPathName ("#" ++ String.ofList w)
  | word {w : List Char} : Token.IsWord w → (∀ c ∈ w.head?, c.isDigit = false) →
      (∀ entry ∈ Token.keywords, w.map Char.toLower ≠ entry.1.toList) → IsPathName (String.ofList w)

/-- A step that can be written: its name can stand in a path, or its index fits 64 bits. -/
def PathStep.Written : PathStep → Prop
  | .field name => IsPathName name
  | .index i => i < Numeral.natBound

/-- A path that can be written. -/
structure Path.Written (p : Path) : Prop where
  head : IsPathName p.head
  steps : ∀ step ∈ p.steps, step.Written

/-- Paths as they are written in a projection. -/
def Path.listText (ps : List Path) : String :=
  ", ".intercalate (ps.map Path.text)

theorem Path.listText_singleton (p : Path) : listText [p] = p.text := by
  rw [listText, List.map_singleton, String.intercalate_singleton]

/-! ## The language of projections -/

/-- **The language of projections**: a text is read as some paths just if it is written for tokens that are these
paths, with commas between them. -/
theorem Path.parseList_eq_ok_iff {s : String} {ps : List Path} :
    Path.parseList s = .ok ps ↔ ∃ ts, Token.Scans s.toList ts ∧ Token.CommasOf Token.PathOf ts ps := by
  constructor
  · intro h
    obtain ⟨ts, hts, h⟩ := bind_eq_ok.1 h
    exact ⟨ts, Token.lex_eq_ok_iff.1 hts, Token.complete_eq_ok (Token.commaList_takes Token.path_takes) h⟩
  · rintro ⟨ts, hts, h⟩
    have htokens : Token.tokenize s = .ok ts := Token.lex_eq_ok_iff.2 hts
    have hread := h.read (fun _ _ hp => hp.read) Token.endsPath_nil nofun
    rw [List.append_nil] at hread
    simp only [parseList, htokens, Token.complete, hread, bind, Except.bind]

namespace Token

/-! ## What is written is read -/

/-- The text is written for the tokens, and a word ends before it if one ends before what follows. -/
def Continues (s : String) (ts : List Token) : Prop :=
  Writes s ts ∧ ∀ cs, EndsWord cs → EndsWord (s.toList ++ cs)

theorem continues_empty : Continues "" [] := by
  refine ⟨fun cs _ => ?_, fun _ hcs => hcs⟩
  change lex cs = _
  cases lex cs <;> rfl

/-- A text before one that ends its last word. -/
theorem Writes.append {a b : String} {ts us : List Token} (ha : Writes a ts) (hb : Continues b us) :
    Writes (a ++ b) (ts ++ us) := fun cs hcs => by
  rw [String.toList_append, List.append_assoc, ha _ (hb.2 cs hcs), hb.1 cs hcs, map_append_append]

theorem Continues.append {a b : String} {ts us : List Token} (ha : Continues a ts) (hb : Continues b us) :
    Continues (a ++ b) (ts ++ us) := by
  refine ⟨ha.1.append hb, fun cs hcs => ?_⟩
  rw [String.toList_append, List.append_assoc]
  exact ha.2 _ (hb.2 cs hcs)

/-- A text behind a separator. -/
theorem Separates.continues {s b : String} {us vs : List Token} (hs : Separates s us) (hb : Writes b vs) :
    Continues (s ++ b) (us ++ vs) := by
  refine ⟨hs.1.writes hb, fun cs _ => ?_⟩
  rw [String.toList_append, List.append_assoc]
  exact hs.2 _

theorem separates_dot : Separates "." [.dot] :=
  ⟨fun cs => lex_mark (c := '.') rfl rfl cs, fun _ => endsWord_cons.2 rfl⟩

theorem separates_leftBracket : Separates "[" [.leftBracket] :=
  ⟨fun cs => lex_mark (c := '[') rfl rfl cs, fun _ => endsWord_cons.2 rfl⟩

theorem separates_rightBracket : Separates "]" [.rightBracket] :=
  ⟨fun cs => lex_mark (c := ']') rfl rfl cs, fun _ => endsWord_cons.2 rfl⟩

/-- A number that fits 64 bits is written in digits that are one word. -/
theorem writes_number {n : Nat} (h : n < Numeral.natBound) : Writes (toString n) [.number n] := fun cs hcs => by
  have hdigits : ∀ c ∈ Nat.toDigits 10 n, c.isDigit = true := List.all_eq_true.1 (Numeral.all_isDigit_toDigits n)
  have hword : IsWord (Nat.toDigits 10 n) := by
    refine ⟨Nat.toDigits_ne_nil, fun c hc => ?_⟩
    simp [isWordPart, Char.isAlphanum, hdigits c hc]
  have hfor : WordFor (Nat.toDigits 10 n) (.number n) := by
    have hnumber := WordFor.number hdigits (by rwa [Numeral.ofDigits_toDigits])
    rwa [Numeral.ofDigits_toDigits] at hnumber
  have htext : (toString n).toList = Nat.toDigits 10 n := Nat.toList_repr
  rw [htext, lex_word hword hcs, (ofPiece_eq_ok_iff hword.1).2 hfor]
  rfl

/-- A name that can stand in a path is written for a token that is it. -/
theorem exists_writes_name {name : String} (h : IsPathName name) : ∃ t, IsName t name ∧ Writes name [t] := by
  cases h with
  | nameAlias hw => exact ⟨_, .nameAlias _, writes_nameAlias hw⟩
  | @word w hw hdigit hkeyword =>
    refine ⟨_, .word _, fun cs hcs => ?_⟩
    rw [String.toList_ofList, lex_name hw hdigit hcs, ofWord_name hkeyword]
    rfl

/-- The steps of a path are written for tokens that are these steps. -/
theorem exists_continues_steps {steps : List PathStep} (h : ∀ step ∈ steps, step.Written) :
    ∃ ts, StepsOf ts steps ∧ Continues (String.join (steps.map PathStep.text)) ts := by
  induction steps with
  | nil => exact ⟨[], .nil, continues_empty⟩
  | cons step steps ih =>
    obtain ⟨hstep, hsteps⟩ := List.forall_mem_cons.1 h
    obtain ⟨ts, hts, hcontinues⟩ := ih hsteps
    rw [List.map_cons, String.join_cons]
    cases step with
    | field name =>
      obtain ⟨t, hname, ht⟩ := exists_writes_name hstep
      exact ⟨_, .field hname hts, (separates_dot.continues ht).append hcontinues⟩
    | index i =>
      have hclosed := ((writes_number hstep).opens separates_rightBracket).toWrites
      have hindex := (separates_leftBracket.continues hclosed).append hcontinues
      rw [← String.append_assoc] at hindex
      exact ⟨_, .index i hts, hindex⟩

end Token

/-- A path that can be written is written for tokens that are it. -/
theorem Path.Written.tokens {p : Path} (h : p.Written) : ∃ ts, Token.PathOf ts p ∧ Token.Writes p.text ts := by
  obtain ⟨t, hname, ht⟩ := Token.exists_writes_name h.head
  obtain ⟨ts, hsteps, hts⟩ := Token.exists_continues_steps h.steps
  exact ⟨t :: ts, .mk hname hsteps, ht.append hts⟩

/-- So are paths that can be written, with commas between them. -/
theorem Path.listText_tokens : ∀ {ps : List Path}, ps ≠ [] → (∀ p ∈ ps, p.Written) →
    ∃ ts, Token.CommasOf Token.PathOf ts ps ∧ Token.Writes (listText ps) ts
  | [], hne, _ => absurd rfl hne
  | [p], _, h => by
    obtain ⟨ts, hp, hts⟩ := (h p (by simp)).tokens
    refine ⟨ts, .one hp, ?_⟩
    rwa [listText_singleton]
  | p :: q :: ps, _, h => by
    obtain ⟨hwritten, hmore⟩ := List.forall_mem_cons.1 h
    obtain ⟨ts, hp, hts⟩ := hwritten.tokens
    obtain ⟨us, hps, hus⟩ := listText_tokens (List.cons_ne_nil q ps) hmore
    have hjoined := hts.join Token.separates_comma hus
    rw [List.append_assoc] at hjoined
    refine ⟨_, .more hp hps, ?_⟩
    rwa [listText, List.map_cons, List.map_cons, String.intercalate_cons_cons]

/-- **Paths that can be written are read back** from their text. -/
theorem Path.parseList_listText {ps : List Path} (hne : ps ≠ []) (h : ∀ p ∈ ps, p.Written) :
    parseList (listText ps) = .ok ps := by
  obtain ⟨ts, hps, hts⟩ := listText_tokens hne h
  exact parseList_eq_ok_iff.2 ⟨ts, Token.lex_eq_ok_iff.1 hts.tokenize, hps⟩

/-! ## What is read is written so -/

namespace Token

/-- A token that can be cut out of a text, as far as a path goes. -/
def Spelled : Token → Prop
  | .word name => IsPathName name
  | .nameAlias name => IsPathName ("#" ++ name)
  | .number n => n < Numeral.natBound
  | _ => True

/-- **The tokens of a text** can be written where a path takes them. -/
theorem Scans.spelled {cs : List Char} {ts : List Token} (h : Scans cs ts) : ∀ t ∈ ts, t.Spelled := by
  induction h with
  | nil => exact List.forall_mem_nil _
  | gap _ _ ih => exact ih
  | @mark c t cs ts hmem _ ih =>
    have hmark : ∀ entry ∈ marks, entry.2.Spelled := by simp [marks, Spelled]
    exact List.forall_mem_cons.2 ⟨hmark _ hmem, ih⟩
  | compare _ _ ih | valueAlias _ _ _ ih => exact List.forall_mem_cons.2 ⟨trivial, ih⟩
  | nameAlias hw _ _ ih => exact List.forall_mem_cons.2 ⟨.nameAlias hw, ih⟩
  | word hw _ ht _ ih =>
    refine List.forall_mem_cons.2 ⟨?_, ih⟩
    cases ht with
    | keyword hmem _ =>
      have hkeyword : ∀ entry ∈ keywords, entry.2.Spelled := by simp [keywords, Function.all, Spelled]
      exact hkeyword _ hmem
    | name hdigit hkeyword => exact .word hw hdigit hkeyword
    | number _ hfits => exact hfits

theorem IsName.isPathName {t : Token} {name : String} (h : IsName t name) (ht : t.Spelled) : IsPathName name := by
  cases h <;> exact ht

theorem StepsOf.written {ts : List Token} {steps : List PathStep} (h : StepsOf ts steps)
    (hts : ∀ t ∈ ts, t.Spelled) : ∀ step ∈ steps, step.Written := by
  induction h with
  | nil => exact List.forall_mem_nil _
  | field hname _ ih =>
    simp only [List.forall_mem_cons] at hts
    exact List.forall_mem_cons.2 ⟨hname.isPathName hts.2.1, ih hts.2.2⟩
  | index i _ ih =>
    simp only [List.forall_mem_cons] at hts
    exact List.forall_mem_cons.2 ⟨hts.2.1, ih hts.2.2.2⟩

theorem PathOf.written {ts : List Token} {p : Path} (h : PathOf ts p) (hts : ∀ t ∈ ts, t.Spelled) : p.Written := by
  cases h with
  | mk hname hsteps =>
    obtain ⟨ht, hts⟩ := List.forall_mem_cons.1 hts
    exact ⟨hname.isPathName ht, hsteps.written hts⟩

theorem CommasOf.written {ts : List Token} {ps : List Path} (h : CommasOf PathOf ts ps)
    (hts : ∀ t ∈ ts, t.Spelled) : ∀ p ∈ ps, p.Written := by
  induction h with
  | one hp => exact List.forall_mem_singleton.2 (hp.written hts)
  | more hp _ ih =>
    obtain ⟨hfirst, hmore⟩ := List.forall_mem_append.1 hts
    exact List.forall_mem_cons.2 ⟨hp.written hfirst, ih (List.forall_mem_cons.1 hmore).2⟩

theorem CommasOf.ne_nil {α : Type} {Of : List Token → α → Prop} {ts : List Token} {as : List α}
    (h : CommasOf Of ts as) : as ≠ [] := by
  cases h <;> exact List.cons_ne_nil _ _

end Token

/-- **The paths of a text** can be written, and there is at least one of them. -/
theorem Path.written_of_parseList {s : String} {ps : List Path} (h : parseList s = .ok ps) :
    ps ≠ [] ∧ ∀ p ∈ ps, p.Written := by
  obtain ⟨ts, hts, hps⟩ := parseList_eq_ok_iff.1 h
  exact ⟨hps.ne_nil, hps.written hts.spelled⟩

/-! ## Texts that are read back -/

/-- **Printed paths are read back**: what a text is read as is read again from its own text, and a path is read from
its text just if it can be written. -/
theorem Path.printed_paths_read :
    (∀ s ps, parseList s = .ok ps → parseList (listText ps) = .ok ps) ∧
      ∀ p : Path, parseList p.text = .ok [p] ↔ p.Written := by
  refine ⟨fun s ps h => ?_, fun p => ⟨fun h => ?_, fun h => ?_⟩⟩
  · obtain ⟨hne, hwritten⟩ := written_of_parseList h
    exact parseList_listText hne hwritten
  · exact (written_of_parseList h).2 p (List.mem_singleton_self p)
  · have hread := parseList_listText (List.cons_ne_nil p []) (List.forall_mem_singleton.2 h)
    rwa [listText_singleton] at hread

/-- Blanks and zeros in front of an index are not printed, and a keyword behind a `#` stays a name. -/
theorem Path.printed_paths_read_of_spaced :
    parseList "a , #in.Sizes [ 007 ].b" = .ok [⟨"a", []⟩, ⟨"#in", [.field "Sizes", .index 7, .field "b"]⟩] ∧
      parseList "a, #in.Sizes[7].b" = .ok [⟨"a", []⟩, ⟨"#in", [.field "Sizes", .index 7, .field "b"]⟩] ∧
      parseList "#in[7]" = .ok [⟨"#in", [.index 7]⟩] := by
  have hspaced : parseList "a , #in.Sizes [ 007 ].b" =
      .ok [⟨"a", []⟩, ⟨"#in", [.field "Sizes", .index 7, .field "b"]⟩] := by decide +kernel
  have hlist : listText [⟨"a", []⟩, ⟨"#in", [.field "Sizes", .index 7, .field "b"]⟩] = "a, #in.Sizes[7].b" := by
    decide +kernel
  have htext : text ⟨"#in", [.index 7]⟩ = "#in[7]" := by decide +kernel
  have hword : Token.IsWord ['i', 'n'] := ⟨nofun, List.all_eq_true.1 rfl⟩
  have hwritten : Written ⟨"#in", [.index 7]⟩ :=
    ⟨.nameAlias hword, List.forall_mem_singleton.2 (by decide : 7 < Numeral.natBound)⟩
  have hread := printed_paths_read.1 _ _ hspaced
  have hback := (printed_paths_read.2 _).2 hwritten
  rw [hlist] at hread
  rw [htext] at hback
  exact ⟨hspaced, hread, hback⟩

/-- A name that is no word is read as something else. -/
example : Path.parseList (Path.text ⟨"a", [.field "b.c"]⟩) = .ok [⟨"a", [.field "b", .field "c"]⟩] := by
  decide +kernel

end RecordStore
