import Mathlib.Algebra.GroupWithZero.Nat
import RecordStore.Expression.Eval
import RecordStore.Query.Test

/-!
# What definitions mean

`Definition.holds` says directly of which items a definition holds, without an expression: of those of which every
required leaf holds and, if there are alternatives, one of them. A leaf holds of an item if each of its operators holds
of the attribute that the item has under the name of the field, if any. A tag that is no operator asks nothing.

`Test.check_holds`: a test that comes from checking an operand asks just what the operator does.

`Definition.aliasCount` is how many aliases it takes to compile a definition.
-/

namespace RecordStore

/-! ## Operators -/

namespace Operator

/-- Whether an operator holds of an attribute that may be missing. -/
def holds (op : Operator) (operand : Json) (a : Option Attribute) : Bool :=
  match op with
  | .compare cmp => a.any fun a => Attribute.holds cmp a (.ofJson operand)
  | .between =>
    match operand with
    | .array [low, high] => a.any fun a => Attribute.holds .ge a (.ofJson low) && Attribute.holds .le a (.ofJson high)
    | _ => false
  | .beginsWith => a.any fun a => a.startsWith (.ofJson operand)
  | .contains => a.any fun a => a.hasPart (.ofJson operand)
  | .notContains => !a.any fun a => a.hasPart (.ofJson operand)
  | .among =>
    match operand with
    | .array candidates => a.any fun a => candidates.any fun c => Attribute.holds .eq a (.ofJson c)
    | _ => false
  | .exists => a.isSome
  | .notExists => a.isNone

/-- How many values an operator compares with. -/
def valueCount (op : Operator) (operand : Json) : Nat :=
  match op with
  | .between => 2
  | .among =>
    match operand with
    | .array candidates => candidates.length
    | _ => 0
  | .exists | .notExists => 0
  | _ => 1

end Operator

namespace Test

/-- Whether a test holds of an attribute that may be missing. -/
def holds (test : Test) (a : Option Attribute) : Bool :=
  match test with
  | .compare op b => a.any fun a => Attribute.holds op a b
  | .between low high => a.any fun a => Attribute.holds .ge a low && Attribute.holds .le a high
  | .beginsWith front => a.any fun a => a.startsWith front
  | .contains part => a.any fun a => a.hasPart part
  | .notContains part => !a.any fun a => a.hasPart part
  | .among first others => a.any fun a => (first :: others).any fun b => Attribute.holds .eq a b
  | .exists => a.isSome
  | .notExists => a.isNone

/-- The test of a range holds where the range does. -/
theorem checkBetween_holds {field : String} {operand : Json} {test : Test}
    (h : checkBetween field operand = .ok test) :
    test.values.length = 2 ∧ ∀ a, test.holds a = Operator.between.holds operand a := by
  unfold checkBetween at h
  split at h
  · split at h
    · cases h; exact ⟨rfl, fun _ => rfl⟩
    · cases h
    · cases h
  · cases h
  · cases h

/-- The test of candidates holds where one of the candidates does. -/
theorem checkAmong_holds {field : String} {operand : Json} {test : Test}
    (h : checkAmong field operand = .ok test) :
    test.values.length = Operator.among.valueCount operand ∧ ∀ a, test.holds a = Operator.among.holds operand a := by
  unfold checkAmong at h
  split at h
  · cases h
  · cases h
    refine ⟨by simp [values, Operator.valueCount], fun a => ?_⟩
    simp only [holds, Operator.holds, List.any_cons, List.any_map, Function.comp_def]
  · cases h

/-- **A test that was checked asks what the operator does.** -/
theorem check_holds {field : String} {op : Operator} {operand : Json} {test : Test}
    (h : check field op operand = .ok test) :
    test.values.length = op.valueCount operand ∧ ∀ a, test.holds a = op.holds operand a := by
  cases op with
  | between => exact checkBetween_holds h
  | among => exact checkAmong_holds h
  | beginsWith =>
    simp only [check] at h
    split at h
    · cases h; exact ⟨rfl, fun _ => rfl⟩
    · cases h
  | _ => cases h; exact ⟨rfl, fun _ => rfl⟩

end Test

/-! ## Definitions -/

namespace Clause

/-- Whether a clause holds of an attribute that may be missing. -/
def holds (c : Clause) (a : Option Attribute) : Bool :=
  match Operator.ofTag? c.tag with
  | some op => op.holds c.operand a
  | none => true

/-- How many aliases a clause takes. -/
def aliasCount (c : Clause) : Nat :=
  match Operator.ofTag? c.tag with
  | some op => 1 + op.valueCount c.operand
  | none => 0

end Clause

namespace Leaf

/-- Whether a leaf holds of an item. -/
def holds (l : Leaf) (item : Item) : Bool :=
  match l.condition with
  | .equals value => (Operator.compare .eq).holds value (item.find l.field)
  | .operators clauses => clauses.all fun c => c.holds (item.find l.field)

/-- How many aliases a leaf takes. -/
def aliasCount (l : Leaf) : Nat :=
  match l.condition with
  | .equals _ => 2
  | .operators clauses => (clauses.map Clause.aliasCount).sum

end Leaf

namespace Definition

/-- Whether a definition holds of an item. -/
def holds (d : Definition) (item : Item) : Bool :=
  d.required.all (·.holds item) && (d.alternatives.isEmpty || d.alternatives.any (·.holds item))

/-- How many aliases a definition takes. -/
def aliasCount (d : Definition) : Nat :=
  (d.all.map Leaf.aliasCount).sum

end Definition

end RecordStore
