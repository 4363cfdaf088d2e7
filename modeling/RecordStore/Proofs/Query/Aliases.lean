import Mathlib
import RecordStore.Proofs.Expression.Lexing
import RecordStore.Proofs.Fields
import RecordStore.Query.Compiler

/-!
# Fresh aliases

Aliases with different numbers are different (`Aliases.nameAlias_inj`, `Aliases.valueAlias_inj`), so maps whose aliases
have numbers from ranges that do not meet have no name in common. `Fields.Issued nth lo hi m` says that the names of
`m` are aliases with numbers from `lo` up to `hi`.

**`Fields.IssuedInTurn.merge`**: of maps with the range of each behind that of the one before, all that one of them says
is found in the map of all. `Test.bindValues_eq` and `Compile.bindNames_eq` say what aliases are drawn.
-/

namespace RecordStore

/-! ## The texts of aliases -/

namespace Aliases

variable {suffix : String} {m n : Nat}

theorem toString_nat_inj (h : toString m = toString n) : m = n := by
  have hd : Nat.toDigits 10 m = Nat.toDigits 10 n := String.ofList_injective h
  have := congrArg (Nat.ofDigitChars 10 · 0) hd
  simpa using this

theorem nameAlias_inj (h : nameAlias suffix m = nameAlias suffix n) : m = n := by
  rw [nameAlias, nameAlias, String.append_left_inj, String.append_right_inj] at h
  exact toString_nat_inj h

theorem valueAlias_inj (h : valueAlias suffix m = valueAlias suffix n) : m = n := by
  rw [valueAlias, valueAlias, String.append_left_inj, String.append_right_inj] at h
  exact toString_nat_inj h

/-- A source whose suffix can end a word of the language. -/
def Wordy (a : Aliases) : Prop := ∀ c ∈ a.suffix.toList, Token.isWordPart c = true

theorem isAlphanum_toLower {c : Char} (h : c.isAlphanum = true) : c.toLower.isAlphanum = true := by
  rw [Char.isAlphanum, Bool.or_eq_true] at h ⊢
  rcases h with ha | hd
  · exact .inl (by rw [Char.isAlpha_toLower_eq_isAlpha, ha])
  · have hu : ¬ c.isUpper = true := fun hu => by
      simp [Char.isUpper, Char.isDigit, UInt32.le_iff_toNat_le] at hu hd
      omega
    exact .inr (by rw [Char.toLower_eq_of_not_isUpper hu, hd])

/-- Every source starts with such a suffix. -/
theorem startingAt_wordy (start : Nat) (suffix : String) : (startingAt start suffix).Wordy := by
  intro c hc
  rw [startingAt, String.toList_ofList, List.mem_map] at hc
  obtain ⟨d, hd, rfl⟩ := hc
  rw [Token.isWordPart, isAlphanum_toLower (List.mem_filter.1 hd).2, Bool.true_or]

/-- A number and a suffix behind a letter are a word. -/
theorem isWord_number {a : Aliases} (ha : a.Wordy) {c : Char} (hc : Token.isWordPart c = true) (n : Nat) :
    Token.IsWord (c :: (Nat.toDigits 10 n ++ a.suffix.toList)) := by
  refine ⟨nofun, fun d hd => ?_⟩
  rcases List.mem_cons.1 hd with rfl | hd
  · exact hc
  rcases List.mem_append.1 hd with hd | hd
  · have : d.isDigit = true := Nat.isDigit_of_mem_toDigits (by decide) (by decide) hd
    simp [Token.isWordPart, Char.isAlphanum, this]
  · exact ha d hd

theorem nameAlias_isNameAlias {a : Aliases} (ha : a.Wordy) (n : Nat) :
    ∃ w, Token.IsWord w ∧ nameAlias a.suffix n = "#" ++ String.ofList w := by
  refine ⟨_, isWord_number ha (c := 'n') (by decide) n, ?_⟩
  apply String.toList_injective
  simp [nameAlias]

theorem valueAlias_isValueAlias {a : Aliases} (ha : a.Wordy) (n : Nat) :
    ∃ w, Token.IsWord w ∧ valueAlias a.suffix n = ":" ++ String.ofList w := by
  refine ⟨_, isWord_number ha (c := 'v') (by decide) n, ?_⟩
  apply String.toList_injective
  simp [valueAlias]

end Aliases

/-! ## Maps of fresh aliases -/

namespace Fields

variable {α : Type} {nth : Nat → String} {lo mid hi : Nat} {first second : Fields α}

/-- A map whose names are aliases with numbers from `lo` up to `hi`. -/
structure Issued (nth : Nat → String) (lo hi : Nat) (m : Fields α) : Prop where
  ordered : m.Ordered
  le : lo ≤ hi
  number : ∀ k, m.has k = true → ∃ n, lo ≤ n ∧ n < hi ∧ k = nth n

theorem Issued.nil (nth : Nat → String) (n : Nat) : Issued nth n n ([] : Fields α) :=
  ⟨ordered_nil, Nat.le_refl n, fun k h => by simp [has] at h⟩

theorem Issued.widen {m : Fields α} {lo' hi' : Nat} (h : Issued nth lo hi m) (hl : lo' ≤ lo) (hh : hi ≤ hi') :
    Issued nth lo' hi' m := by
  have hle := h.le
  refine ⟨h.ordered, by omega, fun k hk => ?_⟩
  obtain ⟨n, hn, hn', e⟩ := h.number k hk
  exact ⟨n, by omega, by omega, e⟩

/-- Maps from ranges that do not meet have no name in common. -/
theorem Issued.disjoint (inj : ∀ {m n}, nth m = nth n → m = n) (hf : Issued nth lo mid first)
    (hs : Issued nth mid hi second) (k : String) (hk : first.has k = true) : second.has k = false := by
  refine Bool.eq_false_iff.2 fun h => ?_
  obtain ⟨m, _, hm, rfl⟩ := hf.number k hk
  obtain ⟨n, hn, _, e⟩ := hs.number _ h
  have := inj e
  omega

theorem Issued.merge (hf : Issued nth lo mid first) (hs : Issued nth mid hi second) :
    Issued nth lo hi (Fields.merge first second) := by
  have hle := hf.le
  have hle' := hs.le
  refine ⟨hf.ordered.merge second, by omega, fun k hk => ?_⟩
  have hor : second.has k = true ∨ first.has k = true := by
    simpa only [has, find_merge hs.ordered, Option.isSome_or, Bool.or_eq_true] using hk
  rcases hor with h | h
  · obtain ⟨n, hlo, hhi, e⟩ := hs.number k h
    exact ⟨n, by omega, hhi, e⟩
  · obtain ⟨n, hlo, hhi, e⟩ := hf.number k h
    exact ⟨n, hlo, by omega, e⟩

/-- Maps with the range of each behind that of the one before. -/
def IssuedInTurn (nth : Nat → String) : Nat → Nat → List (Fields α) → Prop
  | lo, hi, [] => lo = hi
  | lo, hi, m :: ms => ∃ mid, Issued nth lo mid m ∧ IssuedInTurn nth mid hi ms

theorem IssuedInTurn.append : ∀ {lo mid hi : Nat} {ms ns : List (Fields α)}, IssuedInTurn nth lo mid ms →
    IssuedInTurn nth mid hi ns → IssuedInTurn nth lo hi (ms ++ ns)
  | _, _, _, [], _, h, h' => by cases h; exact h'
  | _, _, _, _ :: _, _, ⟨mid, hm, h⟩, h' => ⟨mid, hm, h.append h'⟩

/-- **What any of the maps says is found in the map of all.** -/
theorem IssuedInTurn.merge (inj : ∀ {m n}, nth m = nth n → m = n) :
    ∀ {ms : List (Fields α)} {lo mid hi : Nat} {first : Fields α}, Issued nth lo mid first →
      IssuedInTurn nth mid hi ms →
      Issued nth lo hi (ms.foldl Fields.merge first) ∧ Within first (ms.foldl Fields.merge first) ∧
        ∀ m ∈ ms, Within m (ms.foldl Fields.merge first)
  | [], _, _, _, first, hf, h => by cases h; exact ⟨hf, .refl first, nofun⟩
  | m :: ms, _, _, _, first, hf, ⟨_, hm, h⟩ => by
    obtain ⟨hall, hfirst, hrest⟩ := h.merge inj (hf.merge hm)
    refine ⟨hall, (within_merge_left hm.ordered (hf.disjoint inj hm)).trans hfirst, ?_⟩
    exact List.forall_mem_cons.2 ⟨(within_merge_right hm.ordered).trans hfirst, hrest⟩

/-- Entries under aliases with numbers from one on. -/
def numbered (nth : Nat → String) : Nat → List α → List (String × α)
  | _, [] => []
  | n, a :: as => (nth n, a) :: numbered nth (n + 1) as

theorem length_numbered (nth : Nat → String) : ∀ (n : Nat) (as : List α), (numbered nth n as).length = as.length
  | _, [] => rfl
  | n, _ :: as => by rw [numbered, List.length_cons, length_numbered nth (n + 1) as, List.length_cons]

theorem mem_numbered : ∀ {as : List α} {n : Nat} {k : String}, k ∈ (numbered nth n as).map (·.1) →
    ∃ i, n ≤ i ∧ i < n + as.length ∧ k = nth i
  | [], _, _, h => by cases h
  | a :: as, n, k, h => by
    rw [numbered, List.map_cons, List.mem_cons] at h
    rcases h with rfl | h
    · exact ⟨n, by simp⟩
    · obtain ⟨i, hn, hi, rfl⟩ := mem_numbered h
      exact ⟨i, by omega, by rw [List.length_cons]; omega, rfl⟩

theorem forall₂_numbered {R : String → α → Prop} : ∀ {as : List α} {n : Nat},
    (∀ entry ∈ numbered nth n as, R entry.1 entry.2) → List.Forall₂ R ((numbered nth n as).map (·.1)) as
  | [], _, _ => .nil
  | _ :: _, _, h => .cons (h _ List.mem_cons_self) (forall₂_numbered fun e he => h e (List.mem_cons_of_mem _ he))

theorem nodup_numbered (inj : ∀ {m n}, nth m = nth n → m = n) :
    ∀ (n : Nat) (as : List α), ((numbered nth n as).map (·.1)).Nodup
  | _, [] => List.nodup_nil
  | n, a :: as => by
    rw [numbered, List.map_cons]
    refine List.nodup_cons.2 ⟨fun h => ?_, nodup_numbered inj (n + 1) as⟩
    obtain ⟨i, hi, _, e⟩ := mem_numbered h
    have := inj e
    omega

theorem issued_ofList (n : Nat) (as : List α) : Issued nth n (n + as.length) (ofList (numbered nth n as)) :=
  ⟨ordered_ofList _, by omega, fun _ hk => mem_numbered (mem_of_has_ofList hk)⟩

/-- Entries under aliases that come behind those of a map. -/
theorem Issued.merge_numbered (inj : ∀ {m n}, nth m = nth n → m = n) (h : Issued nth lo mid first) (as : List α) :
    Issued nth lo (mid + as.length) (Fields.merge first (numbered nth mid as)) ∧
      Within first (Fields.merge first (numbered nth mid as)) := by
  have hle := h.le
  have hnew : ∀ k, first.has k = true → k ∉ (numbered nth mid as).map (·.1) := fun k hk hmem => by
    obtain ⟨m, _, hm, rfl⟩ := h.number k hk
    obtain ⟨n, hn, _, e⟩ := mem_numbered hmem
    have := inj e
    omega
  refine ⟨⟨h.ordered.merge _, by omega, fun k hk => ?_⟩, fun k v hk => ?_⟩
  · by_cases hmem : k ∈ (numbered nth mid as).map (·.1)
    · obtain ⟨n, hn, hn', e⟩ := mem_numbered hmem
      exact ⟨n, by omega, hn', e⟩
    · rw [has, find_merge_of_notMem hmem] at hk
      obtain ⟨n, hn, hn', e⟩ := h.number k hk
      exact ⟨n, hn, by omega, e⟩
  · rw [find_merge_of_notMem (hnew k (has_iff.2 ⟨v, hk⟩)), hk]

end Fields

/-! ## Drawing -/

open Fields (numbered)

theorem Aliases.advance_eq {a : Aliases} (h : a.next + 1 < Numeral.natBound) :
    a.advance = { a with next := a.next + 1 } := by
  rw [Aliases.advance, Nat.mod_eq_of_lt h]

/-- Each value gets an alias of its own. -/
theorem Test.bindValues_eq : ∀ (vs : List Attribute) (a : Aliases), a.next + vs.length < Numeral.natBound →
    Test.bindValues vs a =
      (numbered (Aliases.valueAlias a.suffix) a.next vs, { a with next := a.next + vs.length })
  | [], _, _ => rfl
  | v :: vs, a, h => by
    rw [List.length_cons] at h
    have hstep : Test.bindValues (v :: vs) a =
      ((Aliases.valueAlias a.suffix a.next, v) :: (Test.bindValues vs a.advance).1,
        (Test.bindValues vs a.advance).2) := rfl
    rw [hstep, Aliases.advance_eq (by omega), Test.bindValues_eq vs _ (by dsimp only; omega), List.length_cons,
      Nat.add_right_comm]
    rfl

/-- Each name gets an alias of its own. -/
theorem Compile.bindNames_eq : ∀ (names : List String) (a : Aliases), a.next + names.length < Numeral.natBound →
    Compile.bindNames names a =
      (numbered (Aliases.nameAlias a.suffix) a.next names, { a with next := a.next + names.length })
  | [], _, _ => rfl
  | name :: names, a, h => by
    rw [List.length_cons] at h
    have hstep : Compile.bindNames (name :: names) a =
      ((Aliases.nameAlias a.suffix a.next, name) :: (Compile.bindNames names a.advance).1,
        (Compile.bindNames names a.advance).2) := rfl
    rw [hstep, Aliases.advance_eq (by omega), Compile.bindNames_eq names _ (by dsimp only; omega), List.length_cons,
      Nat.add_right_comm]
    rfl

end RecordStore
