import RecordStore.Expression.Token

/-!
# Tokens of texts put together

`Token.lex` makes tokens of characters. A text can be cut where a word ends: the lemmas say what token stands at its
front and that the tokens of the rest follow (`lex_gap`, `lex_mark`, `lex_symbol`, `lex_word`).

`Writes s ts` says that the text `s` is written for the tokens `ts` wherever no word goes on behind it, and
`Opens s ts` says that it is so whatever follows, and `Separates s ts` also that a word ends before it. Texts are put
together by **`Writes.join`**, `Opens.writes` and `Writes.opens`.
-/

namespace RecordStore.Token

/-- The tokens of some characters. -/
def lex (cs : List Char) : Except ExprError (List Token) :=
  ofPieces (pieces cs)

theorem tokenize_eq (s : String) : tokenize s = lex s.toList := rfl

theorem lex_nil : lex [] = .ok [] := rfl

/-- Characters before which a word ends. -/
def EndsWord (cs : List Char) : Prop :=
  ∀ c ∈ cs.head?, isWordPart c = false

theorem endsWord_nil : EndsWord [] := nofun

theorem endsWord_cons {c : Char} {cs : List Char} : EndsWord (c :: cs) ↔ isWordPart c = false := by
  simp [EndsWord]

/-- A word of the language. -/
def IsWord (cs : List Char) : Prop :=
  cs ≠ [] ∧ ∀ c ∈ cs, isWordPart c = true

instance (cs : List Char) : Decidable (IsWord cs) :=
  inferInstanceAs (Decidable (cs ≠ [] ∧ ∀ c ∈ cs, isWordPart c = true))

/-! ## Pieces -/

theorem pieces_other {c : Char} (h : isWordPart c = false) (cs : List Char) :
    pieces (c :: cs) = .other c :: pieces cs := by
  rw [pieces, if_neg (by simp [h])]

/-- A word goes as far as it can. -/
theorem pieces_word : ∀ {w cs : List Char}, IsWord w → EndsWord cs → pieces (w ++ cs) = .word w :: pieces cs
  | [], _, h, _ => absurd rfl h.1
  | [c], cs, h, hcs => by
    have hc : isWordPart c = true := h.2 c (by simp)
    rw [List.singleton_append, pieces, if_pos hc]
    cases cs with
    | nil => rfl
    | cons d ds => rw [pieces_other (endsWord_cons.1 hcs)]
  | c :: d :: w, cs, h, hcs => by
    have hc : isWordPart c = true := h.2 c (by simp)
    have ih := pieces_word (w := d :: w) ⟨by simp, fun x hx => h.2 x (List.mem_cons_of_mem _ hx)⟩ hcs
    rw [List.cons_append, pieces, if_pos hc, ih]

theorem pieces_eq_nil {cs : List Char} (h : pieces cs = []) : cs = [] := by
  cases cs with
  | nil => rfl
  | cons c cs =>
    rw [pieces] at h
    split at h
    · split at h <;> cases h
    · cases h

/-- A text whose first piece is a character that is no part of a word. -/
theorem pieces_eq_other {cs : List Char} {c : Char} {ps : List Piece} (h : pieces cs = .other c :: ps) :
    ∃ rest, cs = c :: rest ∧ isWordPart c = false ∧ ps = pieces rest := by
  cases cs with
  | nil => cases h
  | cons d rest =>
    rw [pieces] at h
    split at h
    · split at h <;> cases h
    · rename_i hd
      cases h
      exact ⟨rest, rfl, by simpa using hd, rfl⟩

/-- A text whose first piece is no word. -/
theorem endsWord_of_pieces {cs : List Char} (h : ∀ w ps, pieces cs = .word w :: ps → False) : EndsWord cs := by
  cases cs with
  | nil => exact endsWord_nil
  | cons c cs =>
    rw [endsWord_cons, Bool.eq_false_iff]
    intro hc
    rw [pieces, if_pos hc] at h
    split at h
    · exact h _ _ rfl
    · exact h _ _ rfl

/-- A text whose first piece is a word. -/
theorem pieces_eq_word {cs w : List Char} {ps : List Piece} (h : pieces cs = .word w :: ps) :
    ∃ rest, cs = w ++ rest ∧ IsWord w ∧ EndsWord rest ∧ ps = pieces rest := by
  induction cs using pieces.induct generalizing w ps with
  | case1 => cases h
  | case2 c cs hc v more hpieces ih =>
    rw [pieces, if_pos hc, hpieces] at h
    cases h
    obtain ⟨rest, rfl, hv, hrest, hmore⟩ := ih hpieces
    exact ⟨rest, rfl, ⟨nofun, List.forall_mem_cons.2 ⟨hc, hv.2⟩⟩, hrest, hmore⟩
  | case3 c cs hc hnone ih =>
    rw [pieces, if_pos hc] at h
    split at h
    · exact absurd ‹_› (hnone _ _)
    · cases h
      exact ⟨cs, rfl, ⟨nofun, by simpa using hc⟩, endsWord_of_pieces hnone, rfl⟩
  | case4 c cs hc ih =>
    rw [pieces, if_neg hc] at h
    cases h

/-- A text whose first pieces are a character and a word. -/
theorem pieces_eq_other_word {cs w : List Char} {c : Char} {ps : List Piece}
    (h : pieces cs = .other c :: .word w :: ps) :
    ∃ rest, cs = c :: (w ++ rest) ∧ IsWord w ∧ EndsWord rest ∧ ps = pieces rest := by
  obtain ⟨rest, rfl, -, hrest⟩ := pieces_eq_other h
  obtain ⟨rest, rfl, hw, hends, rfl⟩ := pieces_eq_word hrest.symm
  exact ⟨rest, rfl, hw, hends, rfl⟩

/-! ## Tokens -/

/-- Blanks make no token. -/
theorem lex_gap {c : Char} (h : isGap c = true) (cs : List Char) : lex (c :: cs) = lex cs := by
  have hc : c = ' ' ∨ c = '\t' ∨ c = '\n' ∨ c = '\x0c' ∨ c = '\r' := by
    simpa [isGap, or_assoc] using h
  rcases hc with rfl | rfl | rfl | rfl | rfl <;> (rw [lex, pieces_other (by decide)]; rfl)

/-- The characters that are a token by themselves whatever follows. -/
def isMark (c : Char) : Bool :=
  c = '=' || c = '.' || c = ',' || c = '(' || c = ')' || c = '[' || c = ']'

theorem lex_mark {c : Char} {t : Token} (h : isMark c = true) (ht : ofChar? c = some t) (cs : List Char) :
    lex (c :: cs) = (t :: ·) <$> lex cs := by
  have hc : c = '=' ∨ c = '.' ∨ c = ',' ∨ c = '(' ∨ c = ')' ∨ c = '[' ∨ c = ']' := by
    simpa [isMark, or_assoc] using h
  rcases hc with rfl | rfl | rfl | rfl | rfl | rfl | rfl <;>
    (cases Option.some.inj ht; rw [lex, pieces_other (by decide)]; rfl)

/-- Characters behind the symbol of a comparison of which none makes it a longer one. -/
def EndsSymbol (op : Comparison) (cs : List Char) : Prop :=
  ∀ c ∈ cs.head?, ∀ longer : Comparison, longer.symbol.toList ≠ op.symbol.toList ++ [c]

theorem endsSymbol_cons {op : Comparison} {c : Char} {cs : List Char} :
    EndsSymbol op (c :: cs) ↔ ∀ longer : Comparison, longer.symbol.toList ≠ op.symbol.toList ++ [c] := by
  simp [EndsSymbol]

/-- Only `=` and `>` make `<` longer. -/
theorem endsSymbol_lt {cs : List Char} (heq : cs.head? ≠ some '=') (hgt : cs.head? ≠ some '>') :
    EndsSymbol .lt cs := by
  rintro c hc longer hlonger
  obtain rfl | rfl : c = '=' ∨ c = '>' := by
    cases longer <;> simp [Comparison.symbol] at hlonger <;> subst hlonger <;> simp
  · exact heq hc
  · exact hgt hc

/-- Only `=` makes `>` longer. -/
theorem endsSymbol_gt {cs : List Char} (heq : cs.head? ≠ some '=') : EndsSymbol .gt cs := by
  rintro c hc longer hlonger
  obtain rfl : c = '=' := by
    cases longer <;> simp [Comparison.symbol] at hlonger
    exact hlonger.symm
  exact heq hc

/-- Nothing makes another symbol longer. -/
theorem endsSymbol_of_ne {op : Comparison} (hlt : op ≠ .lt) (hgt : op ≠ .gt) (cs : List Char) : EndsSymbol op cs := by
  intro c _ longer
  cases op <;> cases longer <;> simp [Comparison.symbol] at hlt hgt ⊢

/-- The symbol of a comparison that goes as far as it can. -/
theorem lex_symbol {op : Comparison} {cs : List Char} (h : EndsSymbol op cs) :
    lex (op.symbol.toList ++ cs) = (.compare op :: ·) <$> lex cs := by
  have hnext : ∀ (c : Char) (longer : Comparison), longer.symbol.toList = op.symbol.toList ++ [c] →
      ∀ ps, pieces cs ≠ .other c :: ps := by
    intro c longer hlonger ps hps
    obtain ⟨rest, rfl, -, -⟩ := pieces_eq_other hps
    exact endsSymbol_cons.1 h longer hlonger
  cases op <;> simp only [Comparison.symbol, String.reduceToList, List.cons_append, List.nil_append, lex] <;>
    repeat rw [pieces_other (by decide)]
  case lt =>
    have heq := hnext '=' .le rfl
    have hgt := hnext '>' .ne rfl
    rw [ofPieces]
    · rfl
    all_goals simp [heq, hgt]
  case gt =>
    have heq := hnext '=' .ge rfl
    rw [ofPieces]
    · rfl
    all_goals simp [heq]
  all_goals rfl

/-- A word that goes as far as it can. -/
theorem lex_word {w cs : List Char} (h : IsWord w) (hcs : EndsWord cs) :
    lex (w ++ cs) = ofPiece w >>= fun t => (t :: ·) <$> lex cs := by
  rw [lex, pieces_word h hcs, ofPieces]
  cases ofPiece w <;> cases hl : lex cs <;> rw [lex] at hl <;> simp only [hl, bind, Except.bind] <;> rfl

/-- A word that does not begin with a digit. -/
theorem lex_name {w : List Char} (h : IsWord w) (hd : ∀ c ∈ w.head?, c.isDigit = false) {cs : List Char}
    (hcs : EndsWord cs) : lex (w ++ cs) = (ofWord w :: ·) <$> lex cs := by
  rw [lex_word h hcs]
  obtain ⟨c, w, rfl⟩ := List.exists_cons_of_ne_nil h.1
  have hc : c.isDigit = false := hd c rfl
  rw [ofPiece, if_neg (by simp [hc])]
  rfl

theorem lex_nameAlias {w cs : List Char} (h : IsWord w) (hcs : EndsWord cs) :
    lex ('#' :: (w ++ cs)) = (.nameAlias (String.ofList w) :: ·) <$> lex cs := by
  rw [lex, pieces_other (by decide), pieces_word h hcs]
  rfl

theorem lex_valueAlias {w cs : List Char} (h : IsWord w) (hcs : EndsWord cs) :
    lex (':' :: (w ++ cs)) = (.valueAlias (String.ofList w) :: ·) <$> lex cs := by
  rw [lex, pieces_other (by decide), pieces_word h hcs]
  rfl

/-! ## Texts put together -/

/-- The text is written for the tokens, if no word goes on behind it. -/
def Writes (s : String) (ts : List Token) : Prop :=
  ∀ cs, EndsWord cs → lex (s.toList ++ cs) = (ts ++ ·) <$> lex cs

/-- The text is written for the tokens whatever follows. -/
def Opens (s : String) (ts : List Token) : Prop :=
  ∀ cs, lex (s.toList ++ cs) = (ts ++ ·) <$> lex cs

/-- The text is written for the tokens whatever follows, and a word ends before it. -/
def Separates (s : String) (ts : List Token) : Prop :=
  Opens s ts ∧ ∀ cs, EndsWord (s.toList ++ cs)

theorem map_append_append (ts us : List Token) (r : Except ExprError (List Token)) :
    (ts ++ ·) <$> (us ++ ·) <$> r = (ts ++ us ++ ·) <$> r := by
  cases r <;> simp [Functor.map, Except.map]

/-- A text behind one that opens. -/
theorem Opens.writes {s b : String} {us vs : List Token} (hs : Opens s us) (hb : Writes b vs) :
    Writes (s ++ b) (us ++ vs) := fun cs hcs => by
  rw [String.toList_append, List.append_assoc, hs, hb _ hcs, map_append_append]

/-- A text before a separator. -/
theorem Writes.opens {a s : String} {ts us : List Token} (ha : Writes a ts) (hs : Separates s us) :
    Opens (a ++ s) (ts ++ us) := fun cs => by
  rw [String.toList_append, List.append_assoc, ha _ (hs.2 _), hs.1, map_append_append]

/-- **Two texts with a separator between them.** -/
theorem Writes.join {a s b : String} {ts us vs : List Token} (ha : Writes a ts) (hs : Separates s us)
    (hb : Writes b vs) : Writes (a ++ s ++ b) (ts ++ us ++ vs) :=
  (ha.opens hs).writes hb

theorem Opens.toWrites {s : String} {ts : List Token} (h : Opens s ts) : Writes s ts := fun cs _ => h cs

/-- The tokens of a text that is written for them. -/
theorem Writes.tokenize {s : String} {ts : List Token} (h : Writes s ts) : tokenize s = .ok ts := by
  have := h [] endsWord_nil
  rw [List.append_nil] at this
  rw [tokenize_eq, this, lex_nil]
  simp [Functor.map, Except.map]

/-! ## Words and separators -/

/-- A name alias. -/
theorem writes_nameAlias {w : List Char} (h : IsWord w) :
    Writes ("#" ++ String.ofList w) [.nameAlias (String.ofList w)] := fun cs hcs => by
  have hs : ("#" ++ String.ofList w).toList ++ cs = '#' :: (w ++ cs) := by simp
  rw [hs, lex_nameAlias h hcs]
  rfl

/-- A value alias. -/
theorem writes_valueAlias {w : List Char} (h : IsWord w) :
    Writes (":" ++ String.ofList w) [.valueAlias (String.ofList w)] := fun cs hcs => by
  have hs : (":" ++ String.ofList w).toList ++ cs = ':' :: (w ++ cs) := by simp
  rw [hs, lex_valueAlias h hcs]
  rfl

/-- A keyword between blanks. -/
theorem separates_keyword {w : List Char} {t : Token} (h : IsWord w) (hd : ∀ c ∈ w.head?, c.isDigit = false)
    (ht : ofWord w = t) : Separates (" " ++ String.ofList w ++ " ") [t] := by
  have hs : ∀ cs, (" " ++ String.ofList w ++ " ").toList ++ cs = ' ' :: (w ++ ' ' :: cs) := by simp
  refine ⟨fun cs => ?_, fun cs => ?_⟩
  · rw [hs, lex_gap rfl, lex_name h hd (endsWord_cons.2 rfl), lex_gap rfl, ht]
    rfl
  · rw [hs]
    exact endsWord_cons.2 rfl

theorem separates_and : Separates " AND " [.and] :=
  separates_keyword (w := ['A', 'N', 'D']) ⟨nofun, List.all_eq_true.1 rfl⟩ (by rintro _ ⟨⟩; rfl) rfl

theorem separates_or : Separates " OR " [.or] :=
  separates_keyword (w := ['O', 'R']) ⟨nofun, List.all_eq_true.1 rfl⟩ (by rintro _ ⟨⟩; rfl) rfl

theorem separates_lowerAnd : Separates " and " [.and] :=
  separates_keyword (w := ['a', 'n', 'd']) ⟨nofun, List.all_eq_true.1 rfl⟩ (by rintro _ ⟨⟩; rfl) rfl

theorem separates_between : Separates " between " [.between] :=
  separates_keyword (w := ['b', 'e', 't', 'w', 'e', 'e', 'n']) ⟨nofun, List.all_eq_true.1 rfl⟩
    (by rintro _ ⟨⟩; rfl) rfl

/-- The symbol of a comparison between blanks. -/
theorem separates_compare (op : Comparison) : Separates (" " ++ op.symbol ++ " ") [.compare op] := by
  have hs : ∀ cs, (" " ++ op.symbol ++ " ").toList ++ cs = ' ' :: (op.symbol.toList ++ ' ' :: cs) := by simp
  refine ⟨fun cs => ?_, fun cs => ?_⟩
  · have hends : EndsSymbol op (' ' :: cs) :=
      endsSymbol_cons.2 fun longer => by cases op <;> cases longer <;> decide
    rw [hs, lex_gap rfl, lex_symbol hends, lex_gap rfl]
    rfl
  · rw [hs]
    exact endsWord_cons.2 rfl

theorem opens_leftParen : Opens "(" [.leftParen] := fun cs => lex_mark (c := '(') rfl rfl cs

theorem separates_rightParen : Separates ")" [.rightParen] :=
  ⟨fun cs => lex_mark (c := ')') rfl rfl cs, fun _ => endsWord_cons.2 rfl⟩

theorem separates_comma : Separates ", " [.comma] := by
  refine ⟨fun cs => ?_, fun _ => endsWord_cons.2 rfl⟩
  show lex (',' :: ' ' :: cs) = _
  rw [lex_mark (t := .comma) rfl rfl, lex_gap rfl]
  rfl

theorem opens_not : Opens "NOT " [.not] := fun cs => by
  have hs : "NOT ".toList ++ cs = ['N', 'O', 'T'] ++ ' ' :: cs := rfl
  have hw : IsWord ['N', 'O', 'T'] := ⟨nofun, List.all_eq_true.1 rfl⟩
  rw [hs, lex_name hw (by rintro _ ⟨⟩; rfl) (endsWord_cons.2 rfl), lex_gap rfl]
  rfl

/-- The name of a function and the parenthesis behind it. -/
theorem opens_function (f : Function) : Opens (f.name ++ "(") [.function f, .leftParen] := fun cs => by
  have hs : (f.name ++ "(").toList ++ cs = f.name.toList ++ '(' :: cs := by simp
  have hw : IsWord f.name.toList := by cases f <;> exact ⟨by decide, List.all_eq_true.1 rfl⟩
  have hd : ∀ c ∈ f.name.toList.head?, c.isDigit = false := by cases f <;> (rintro _ ⟨⟩; rfl)
  have ht : ofWord f.name.toList = .function f := by cases f <;> rfl
  rw [hs, lex_name hw hd (endsWord_cons.2 rfl), lex_mark (t := .leftParen) rfl rfl, ht]
  cases lex cs <;> rfl

end RecordStore.Token
