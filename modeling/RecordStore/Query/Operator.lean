import RecordStore.Expression.Basic

/-!
# Operators of definitions

A definition asks something of a field by an operator, which it names by a tag such as `$gte`.
-/

namespace RecordStore

/-- The operators that a definition may use. -/
inductive Operator where
  | compare (op : Comparison)
  | between
  | beginsWith
  | contains
  | notContains
  | among
  | exists
  | notExists
deriving DecidableEq, Repr

namespace Operator

/-- All operators, in the order of their list. -/
def all : List Operator :=
  [.compare .eq, .compare .ne, .compare .lt, .compare .le, .compare .gt, .compare .ge, .between, .beginsWith,
   .contains, .notContains, .among, .exists, .notExists]

/-- The tag of an operator. -/
def tag : Operator → String
  | .compare .eq => "$eq"
  | .compare .ne => "$notEq"
  | .compare .lt => "$lt"
  | .compare .le => "$lte"
  | .compare .gt => "$gt"
  | .compare .ge => "$gte"
  | .between => "$between"
  | .beginsWith => "$beginsWith"
  | .contains => "$contains"
  | .notContains => "$notContains"
  | .among => "$in"
  | .exists => "$exists"
  | .notExists => "$notExists"

/-- The operator of a tag. -/
def ofTag? (tag : String) : Option Operator :=
  all.find? fun op => op.tag = tag

/-- The comparison that an operator is. -/
def comparison? : Operator → Option Comparison
  | .compare op => some op
  | _ => none

/-- Whether an operator may be used on a key. -/
def isForKeys : Operator → Bool
  | .compare .ne => false
  | .compare _ | .between | .beginsWith => true
  | .contains | .notContains | .among | .exists | .notExists => false

end Operator

end RecordStore
