import RecordStore.Proofs.Number.Monotone
import RecordStore.Proofs.Table.Placing

/-!
# Keys and positions in order

`LawfulCompare` collects what an ordered map and a sort need of a comparison: it is a total order up to what compares
equal, and the equality and the partial order that stand beside it say the same.

**`keys_and_positions_ordered`**: key values and positions have such comparisons; keys of different kinds are ordered by
their kind, and of two positions with as many parts the one comes first whose part does where they first differ
(`Position.Precedes`), an absent part before one that is there. Numerals that are none compare equal to each other and
come last among numbers (`SortKey.isLE_of_no_number`), and a read walks its items in the order of their positions
(`Table.ordered_precedes`).
-/

namespace RecordStore

open Std (TransCmp OrientedCmp ReflCmp)

/-! ## Comparisons -/

/-- A comparison is a total order up to what compares equal, with an equality and a partial order that agree with it. -/
structure LawfulCompare {α : Type} (compare : α → α → Ordering) (same : α → α → Bool)
    (partialCompare : α → α → Option Ordering) : Prop where
  refl : ∀ a, compare a a = .eq
  swap : ∀ a b, compare a b = (compare b a).swap
  total : ∀ a b, (compare a b).isLE ∨ (compare b a).isLE
  trans : ∀ a b c, (compare a b).isLE → (compare b c).isLE → (compare a c).isLE
  antisymm : ∀ a b, (compare a b).isLE → (compare b a).isLE → compare a b = .eq
  same_iff : ∀ a b, same a b = true ↔ compare a b = .eq
  partial_eq : ∀ a b, partialCompare a b = some (compare a b)

/-- A comparison that is oriented and transitive only needs an equality and a partial order that agree with it. -/
theorem LawfulCompare.of_transCmp {α : Type} {compare : α → α → Ordering} [TransCmp compare] {same : α → α → Bool}
    {partialCompare : α → α → Option Ordering} (hsame : ∀ a b, same a b = true ↔ compare a b = .eq)
    (hpartial : ∀ a b, partialCompare a b = some (compare a b)) : LawfulCompare compare same partialCompare where
  refl a := ReflCmp.compare_self
  swap a b := OrientedCmp.eq_swap
  total a b := by
    rw [@OrientedCmp.eq_swap _ compare _ b a]
    cases compare a b <;> simp
  trans a b c := TransCmp.isLE_trans
  antisymm a b hab hba := by
    rw [@OrientedCmp.eq_swap _ compare _ b a] at hba
    cases h : compare a b <;> simp [h] at hab hba ⊢
  same_iff := hsame
  partial_eq := hpartial

/-! ## Keys -/

namespace SortKey

theorem lawfulCompare : LawfulCompare compare same partialCompare :=
  .of_transCmp (fun _ _ => decide_eq_true_iff) fun _ _ => rfl

/-- Keys of different kinds are ordered by their kind. -/
theorem compare_of_rank_lt {a b : SortKey} (h : a.rank < b.rank) : compare a b = .lt := by
  cases a <;> cases b <;> first | rfl | simp [rank] at h

end SortKey

/-- No number that is read ranks above what is no numeral. -/
theorem Binary64.rank_le_notANumber {cs : List Char} {x : Binary64} (h : parse? cs = some x) :
    x.rank ≤ (notANumber false).rank := by
  have hinfinity : ∀ y : Binary64, y.place ≤ infinityPlace → y.rank ≤ (notANumber false).rank := by
    intro y hy
    have hlt : (y.place : Int) ≤ (infinityPlace + binade / 2 : Nat) := by omega
    simp only [rank, notANumber, Bool.false_eq_true, if_false]
    split <;> omega
  rw [parse?] at h
  split at h
  · cases h
    refine hinfinity _ ?_
    have hfinite := isNaN_ofNumeral ‹Numeral›
    simpa [isNaN] using hfinite
  · simp only [named?] at h
    split at h
    · cases h
      exact hinfinity _ (Nat.le_refl _)
    · split at h
      · cases h
        cases (Numeral.takeSign cs).1 <;> decide
      · cases h

/-- **What is no numeral** comes behind every number, and with all else that is none. -/
theorem SortKey.isLE_of_no_number {m n : String} (hn : Binary64.parse? n.toList = none) :
    (compare (.number m) (.number n)).isLE := by
  have hdouble : double n = Binary64.notANumber false := by rw [double, hn, Option.getD_none]
  have hrank : (double m).rank ≤ (double n).rank := by
    rw [hdouble, double]
    cases hm : Binary64.parse? m.toList with
    | none => exact le_refl _
    | some x => exact Binary64.rank_le_notANumber hm
  exact Std.isLE_compare.2 hrank

/-- Both zeros and both infinities have places of their own, and a word is no number. -/
example : SortKey.compare (.number "-inf") (.number "-0") = .lt ∧
    SortKey.compare (.number "-0") (.number "0.0") = .lt ∧
    SortKey.compare (.number "inf") (.number "many") = .lt ∧
    SortKey.compare (.number "many") (.number "few") = .eq := by
  decide +kernel

/-! ## Positions -/

namespace Position

variable {a b : Option SortKey} {p q : Position}

theorem samePart_iff : samePart a b = true ↔ comparePart a b = .eq := by
  cases a <;> cases b <;> simp [samePart, comparePart, SortKey.same]

theorem partialComparePart_eq (a b : Option SortKey) : partialComparePart a b = some (comparePart a b) := by
  cases a <;> cases b <;> rfl

theorem same_iff : ∀ {p q : Position}, same p q = true ↔ compare p q = .eq
  | [], [] => ⟨fun _ => rfl, fun _ => rfl⟩
  | [], _ :: _ => ⟨nofun, nofun⟩
  | _ :: _, [] => ⟨nofun, nofun⟩
  | a :: p, b :: q => by
    rw [same, Bool.and_eq_true, samePart_iff, same_iff (p := p), compare_cons, Ordering.then_eq_eq]

theorem partialCompare_eq : ∀ p q : Position, partialCompare p q = some (compare p q)
  | [], [] => rfl
  | [], _ :: _ => rfl
  | _ :: _, [] => rfl
  | a :: p, b :: q => by
    rw [partialCompare, partialComparePart_eq, compare, partialCompare_eq p q]
    cases comparePart a b <;> rfl

theorem lawfulCompare : LawfulCompare compare same partialCompare :=
  .of_transCmp (fun _ _ => same_iff) partialCompare_eq

/-! ## The first parts that differ -/

/-- A part comes before another: an absent one before one that is there, and others by their keys. -/
inductive PartPrecedes : Option SortKey → Option SortKey → Prop
  | absent (key : SortKey) : PartPrecedes none (some key)
  | keys {a b : SortKey} : SortKey.compare a b = .lt → PartPrecedes (some a) (some b)

/-- A position comes before another: so does its part where they first differ. -/
def Precedes (p q : Position) : Prop :=
  ∃ (i : Nat) (a b : Option SortKey), p[i]? = some a ∧ q[i]? = some b ∧ PartPrecedes a b ∧
    ∀ j < i, ∀ a b, p[j]? = some a → q[j]? = some b → samePart a b = true

theorem partPrecedes_iff : PartPrecedes a b ↔ comparePart a b = .lt := by
  constructor
  · rintro (key | h)
    · rfl
    · exact h
  · intro h
    cases a with
    | none => cases b with
      | none => cases h
      | some b => exact .absent b
    | some a => cases b with
      | none => cases h
      | some b => exact .keys h

theorem not_precedes_nil (q : Position) : ¬ Precedes [] q := by
  rintro ⟨i, a, b, ha, -⟩
  cases ha

/-- Positions differ first in their first parts, or behind them. -/
theorem precedes_cons : Precedes (a :: p) (b :: q) ↔ PartPrecedes a b ∨ samePart a b = true ∧ Precedes p q := by
  constructor
  · rintro ⟨i, x, y, hx, hy, hxy, hsame⟩
    cases i with
    | zero =>
      cases hx
      cases hy
      exact .inl hxy
    | succ i =>
      refine .inr ⟨hsame 0 (Nat.succ_pos i) a b rfl rfl, i, x, y, hx, hy, hxy, fun j hj => ?_⟩
      exact hsame (j + 1) (Nat.succ_lt_succ hj)
  · rintro (h | ⟨h, i, x, y, hx, hy, hxy, hsame⟩)
    · exact ⟨0, a, b, rfl, rfl, h, nofun⟩
    · refine ⟨i + 1, x, y, hx, hy, hxy, fun j hj c d hc hd => ?_⟩
      cases j with
      | zero =>
        cases hc
        cases hd
        exact h
      | succ j => exact hsame j (Nat.lt_of_succ_lt_succ hj) c d hc hd

/-- **Positions are compared** by the first parts that differ. -/
theorem compare_eq_lt_iff : ∀ {p q : Position}, p.length = q.length → (compare p q = .lt ↔ Precedes p q)
  | [], [], _ => ⟨nofun, fun h => absurd h (not_precedes_nil [])⟩
  | a :: p, b :: q, h => by
    have ih := compare_eq_lt_iff (p := p) (q := q) (Nat.succ.inj h)
    rw [compare_cons, Ordering.then_eq_lt, precedes_cons, partPrecedes_iff, samePart_iff, ih]

end Position

namespace Table

variable {t : Table} {readOrder : List (Option KeyField)} {item : Item} {p : Position}

/-- The positions of one read have the same layout. -/
theorem layout_of_place (h : place readOrder item = .ok p) : p.map Option.isSome = readOrder.map Option.isSome := by
  induction place_ok.1 h with
  | nil => rfl
  | @cons k a readOrder p hpart hp ih =>
    have hsome : a.isSome = k.isSome := by
      cases k with
      | none =>
        cases hpart
        rfl
      | some k =>
        simp only [part] at hpart
        split at hpart <;> cases hpart
        rfl
    rw [List.map_cons, List.map_cons, hsome, ih (place_ok.2 hp)]

/-- **What a read walks** is sorted by the first parts that differ. -/
theorem ordered_precedes (t : Table) (readOrder : List (Option KeyField)) :
    (t.ordered readOrder true).Pairwise fun a b => Position.Precedes a.1 b.1 ∨ Position.same a.1 b.1 = true := by
  refine (pairwise_ordered t readOrder).imp_of_mem fun {a b} ha hb hle => ?_
  have hlayout : a.1.length = b.1.length := by
    have h := (layout_of_place (mem_ordered.1 ha).2).trans (layout_of_place (mem_ordered.1 hb).2).symm
    simpa using congrArg List.length h
  rw [← Position.compare_eq_lt_iff hlayout, Position.same_iff]
  cases h : Position.compare a.1 b.1 with
  | lt => exact .inl rfl
  | eq => exact .inr rfl
  | gt => exact absurd h hle

end Table

/-- **Keys and positions are in order**: both are totally ordered up to what compares equal, keys of different kinds by
their kind, and positions of one length by the first parts that differ. -/
theorem keys_and_positions_ordered :
    LawfulCompare SortKey.compare SortKey.same SortKey.partialCompare ∧
      (∀ a b : SortKey, a.rank < b.rank → SortKey.compare a b = .lt) ∧
      LawfulCompare Position.compare Position.same Position.partialCompare ∧
      ∀ p q : Position, p.length = q.length → (Position.compare p q = .lt ↔ Position.Precedes p q) :=
  ⟨SortKey.lawfulCompare, fun _ _ => SortKey.compare_of_rank_lt, Position.lawfulCompare,
    fun _ _ => Position.compare_eq_lt_iff⟩

/-- Digits that are a text come before a number, and a position with its second part absent before one that has it. -/
theorem keys_and_positions_ordered_of_absent :
    SortKey.compare (.text "9") (.number "1") = .lt ∧
      Position.compare [some (.text "a"), none] [some (.text "a"), some (.number "1")] = .lt := by
  have hprecedes : Position.Precedes [some (.text "a"), none] [some (.text "a"), some (.number "1")] := by
    refine ⟨1, none, some (.number "1"), rfl, rfl, .absent _, fun j hj a b ha hb => ?_⟩
    obtain rfl : j = 0 := Nat.lt_one_iff.1 hj
    cases ha
    cases hb
    decide
  exact ⟨keys_and_positions_ordered.2.1 _ _ (by decide), (keys_and_positions_ordered.2.2.2 _ _ (by rfl)).2 hprecedes⟩

end RecordStore
