import RecordStore.Table.SortKey

/-!
# The orders of keys and positions

`SortKey.compare` and `Position.compare` are total orders up to keys that compare equal; only numerals can do so without
being the same (`SortKey.eq_of_compare`).
-/

namespace RecordStore

open Std (TransCmp OrientedCmp TransOrd OrientedOrd ReflCmp)

/-- A double is given by its rank in the order of all patterns. -/
theorem Binary64.rank_injective {x y : Binary64} (h : x.rank = y.rank) : x = y := by
  obtain ⟨xs, xp⟩ := x
  obtain ⟨ys, yp⟩ := y
  cases xs <;> cases ys <;> simp only [rank, Bool.false_eq_true, if_true, if_false] at h
  all_goals first | omega | (congr 1; omega)

namespace SortKey

/-- Bytes are compared one after the other. -/
theorem bytes_transCmp : TransCmp fun a b : List UInt8 => compareOfLessAndEq a b :=
  TransOrd.compareOfLessAndEq_of_antisymm_of_trans_of_total_of_not_le
    List.le_antisymm List.le_trans List.le_total List.not_le

instance : TransCmp SortKey.compare where
  eq_swap {a b} := by
    cases a <;> cases b <;> try rfl
    · exact OrientedOrd.eq_swap (α := String)
    · exact OrientedOrd.eq_swap (α := Int)
    · exact bytes_transCmp.eq_swap
  isLE_trans {a b c} hab hbc := by
    cases a <;> cases b <;> cases c <;> first | rfl | contradiction | skip
    · exact TransOrd.isLE_trans (α := String) hab hbc
    · exact TransOrd.isLE_trans (α := Int) hab hbc
    · exact bytes_transCmp.isLE_trans hab hbc

/-- Texts that compare equal are the same. -/
theorem text_eq_of_compare {a b : String} (h : compare (.text a) (.text b) = .eq) : a = b :=
  (compareOfLessAndEq_eq_eq String.le_refl String.not_le).1 h

/-- Bytes that compare equal are the same. -/
theorem binary_eq_of_compare {a b : List UInt8} (h : compare (.binary a) (.binary b) = .eq) : a = b :=
  (compareOfLessAndEq_eq_eq List.le_refl List.not_le).1 h

/-- Numbers that compare equal stand for one double. -/
theorem double_eq_of_compare {m n : String} (h : compare (.number m) (.number n) = .eq) : double m = double n := by
  have hrank : Ord.compare (double m).rank (double n).rank = .eq := h
  exact Binary64.rank_injective (Std.LawfulEqCmp.eq_of_compare hrank)

/-- Keys that compare equal are the same, unless they are numbers. -/
theorem eq_of_compare {a b : SortKey} (h : compare a b = .eq) (ha : ∀ n, a ≠ .number n) : a = b := by
  cases a with
  | text a => cases b with
    | text b => rw [text_eq_of_compare h]
    | _ => cases h
  | number n => exact absurd rfl (ha n)
  | binary a => cases b with
    | binary b => rw [binary_eq_of_compare h]
    | _ => cases h

end SortKey

namespace Position

instance : TransCmp comparePart where
  eq_swap {a b} := by
    cases a <;> cases b <;> try rfl
    exact @OrientedCmp.eq_swap _ SortKey.compare _ _ _
  isLE_trans {a b c} hab hbc := by
    cases a <;> cases b <;> cases c <;> first | rfl | contradiction | skip
    exact @TransCmp.isLE_trans _ SortKey.compare _ _ _ _ hab hbc

theorem compare_cons (a b : Option SortKey) (as bs : Position) :
    compare (a :: as) (b :: bs) = (comparePart a b).then (compare as bs) := by
  rw [compare]
  cases comparePart a b <;> rfl

theorem eq_swap : ∀ {a b : Position}, compare a b = (compare b a).swap
  | [], [] => rfl
  | [], _ :: _ => rfl
  | _ :: _, [] => rfl
  | a :: as, b :: bs => by
    rw [compare_cons, compare_cons, Ordering.swap_then, ← eq_swap (a := as),
      ← @OrientedCmp.eq_swap _ comparePart]

theorem isLE_trans : ∀ {a b c : Position}, (compare a b).isLE → (compare b c).isLE → (compare a c).isLE
  | [], _, [], _, _ => rfl
  | [], _, _ :: _, _, _ => rfl
  | _ :: _, [], _, hab, _ => by contradiction
  | _ :: _, _ :: _, [], _, hbc => by contradiction
  | a :: as, b :: bs, c :: cs, hab, hbc => by
    rw [compare_cons, Ordering.isLE_then_iff_and] at hab hbc ⊢
    refine ⟨TransCmp.isLE_trans hab.1 hbc.1, ?_⟩
    rcases hab.2 with hlt | hle
    · exact .inl (TransCmp.lt_of_lt_of_isLE hlt hbc.1)
    rcases hbc.2 with hlt | hle'
    · exact .inl (TransCmp.lt_of_isLE_of_lt hab.1 hlt)
    · exact .inr (isLE_trans hle hle')

instance : TransCmp compare where
  eq_swap := eq_swap
  isLE_trans := isLE_trans

end Position

end RecordStore
