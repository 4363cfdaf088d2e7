import RecordStore.Expression.Eval
import RecordStore.Proofs.Table.Order

/-!
# Equality of values

Conditions compare scalars of one type by their order and all other values as they are. Equality is symmetric
(**`holds_eq_comm`**). For numbers it is that of their doubles (**`holds_eq_number`**), so one number has many spellings
that are equal, and a text that is not read as a number is not even equal to itself; all other values are equal only if
they are the same (**`holds_eq_iff_eq`**).
-/

namespace RecordStore.Attribute

variable {a b : Attribute}

/-! ## Order -/

/-- Where the number that a text stands for lies on the scale of all values, if the text is read as a number at all. -/
def place? (n : String) : Option Int := do
  let x ← Binary64.parse? n.toList
  if x.isNaN then none else some x.signedPlace

/-- Numbers have the order of their places. -/
theorem order?_number (m n : String) :
    order? (.number m) (.number n) = (do let i ← place? m; let j ← place? n; some (compare i j)) := by
  rw [order?, place?, place?]
  cases Binary64.parse? m.toList with
  | none => rfl
  | some x =>
    cases hx : x.isNaN with
    | true => cases Binary64.parse? n.toList <;> simp [Binary64.partialCompare, hx]
    | false =>
      cases Binary64.parse? n.toList with
      | none => simp [hx]
      | some y => cases hy : y.isNaN <;> simp [Binary64.partialCompare, hx, hy]

/-- What can be compared one way round can be the other way round. -/
theorem order?_swap (a b : Attribute) : order? b a = (order? a b).map Ordering.swap := by
  cases a <;> cases b <;> try rfl
  case text.text a b => exact congrArg some (Std.OrientedOrd.eq_swap (α := String))
  case binary.binary a b => exact congrArg some SortKey.bytes_transCmp.eq_swap
  case number.number m n =>
    rw [order?_number, order?_number]
    cases place? m <;> cases place? n <;> try rfl
    exact congrArg some (Std.OrientedOrd.eq_swap (α := Int))

/-! ## Equality -/

/-- Attributes of one type are scalars or not together. -/
theorem isScalar_congr {a b : Attribute} (h : a.type = b.type) : a.isScalar = b.isScalar := by
  cases a <;> cases b <;> first | rfl | cases h

/-- **Equality of values is symmetric.** -/
theorem holds_eq_comm (a b : Attribute) : holds .eq a b = holds .eq b a := by
  unfold holds
  rw [order?_swap a b]
  by_cases htype : a.type = b.type
  · rw [isScalar_congr htype, decide_eq_true htype, decide_eq_true htype.symm]
    split
    · cases order? a b with
      | none => rfl
      | some o => cases o <;> rfl
    · exact decide_eq_decide.2 eq_comm
  · rw [decide_eq_false htype, decide_eq_false (Ne.symm htype), Bool.and_false, Bool.and_false]
    exact decide_eq_decide.2 eq_comm

/-- Scalars of one type are equal if they have an order and are neither less nor more in it. -/
theorem holds_eq_scalar (hscalar : a.isScalar = true) (htype : a.type = b.type) :
    holds .eq a b = true ↔ order? a b = some .eq := by
  unfold holds
  rw [hscalar, decide_eq_true htype, Bool.true_and, if_pos rfl]
  cases order? a b with
  | none => decide
  | some o => cases o <;> decide

/-- **Equality of numbers** is that of their places; a text that is not read as a number equals none. -/
theorem holds_eq_number (m n : String) :
    holds .eq (.number m) (.number n) = true ↔ ∃ i, place? m = some i ∧ place? n = some i := by
  rw [holds_eq_scalar (a := .number m) (b := .number n) rfl rfl, order?_number]
  cases place? m with
  | none => simp
  | some i =>
    cases place? n with
    | none => simp
    | some j =>
      change some (compare i j) = some .eq ↔ _
      rw [Option.some_inj, Std.LawfulEqCmp.compare_eq_iff_eq]
      simp [eq_comm]

/-- **Equality of other values** is that of all they are made of. -/
theorem holds_eq_iff_eq (h : ¬ (a.type = .number ∧ b.type = .number)) : holds .eq a b = true ↔ a = b := by
  by_cases hsame : a.isScalar = true ∧ a.type = b.type
  · obtain ⟨hscalar, htype⟩ := hsame
    rw [holds_eq_scalar hscalar htype]
    cases a with
    | text s =>
      cases b with
      | text t =>
        rw [order?, Option.some_inj, compareOfLessAndEq_eq_eq String.le_refl String.not_le, text.injEq]
      | _ => cases htype
    | binary s =>
      cases b with
      | binary t =>
        rw [order?, Option.some_inj, compareOfLessAndEq_eq_eq List.le_refl List.not_le, binary.injEq]
      | _ => cases htype
    | number m => exact absurd ⟨rfl, htype.symm⟩ h
    | _ => cases hscalar
  · unfold holds
    rw [if_neg (by simpa using hsame)]
    exact decide_eq_true_iff

end RecordStore.Attribute
