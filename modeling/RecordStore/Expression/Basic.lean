/-!
# Expressions

The store's language of conditions. An expression compares and combines operands: paths into an item, `:` aliases of
values, and sizes of what paths lead to. A path starts at an attribute and goes on through the fields of maps and the
items of lists; a name that starts with `#` is an alias.
-/

namespace RecordStore

/-- The comparisons of two operands. -/
inductive Comparison where
  | eq
  | ne
  | lt
  | le
  | gt
  | ge
deriving DecidableEq, Repr

namespace Comparison

/-- The symbol of a comparison. -/
def symbol : Comparison → String
  | .eq => "="
  | .ne => "<>"
  | .lt => "<"
  | .le => "<="
  | .gt => ">"
  | .ge => ">="

/-- Whether a comparison holds of operands in a given order. -/
def holds : Comparison → Ordering → Bool
  | .eq, o => o = .eq
  | .ne, o => o ≠ .eq
  | .lt, o => o = .lt
  | .le, o => o ≠ .gt
  | .gt, o => o = .gt
  | .ge, o => o ≠ .lt

end Comparison

/-- The functions of conditions. -/
inductive Function where
  | attributeExists
  | attributeNotExists
  | attributeType
  | beginsWith
  | contains
deriving DecidableEq, Repr

namespace Function

/-- All functions. -/
def all : List Function :=
  [.attributeExists, .attributeNotExists, .attributeType, .beginsWith, .contains]

/-- The name of a function. -/
def name : Function → String
  | .attributeExists => "attribute_exists"
  | .attributeNotExists => "attribute_not_exists"
  | .attributeType => "attribute_type"
  | .beginsWith => "begins_with"
  | .contains => "contains"

/-- The function of a name. -/
def ofName? (name : String) : Option Function :=
  all.find? fun f => f.name = name

/-- How many arguments a function takes. -/
def arity : Function → Nat
  | .attributeExists | .attributeNotExists => 1
  | .attributeType | .beginsWith | .contains => 2

end Function

/-- A step inside a value: to a field of a map, or to an item of a list. -/
inductive PathStep where
  | field (name : String)
  | index (i : Nat)
deriving DecidableEq, Repr

/-- A path into an item: the attribute where it starts, and the steps from there. -/
structure Path where
  head : String
  steps : List PathStep
deriving DecidableEq, Repr

/-- What a condition looks at. -/
inductive Operand where
  | path (path : Path)
  /-- An alias of a value, with its colon. -/
  | value (name : String)
  | size (path : Path)
deriving DecidableEq, Repr

/-- A condition on an item. -/
inductive Expr where
  | compare (left : Operand) (op : Comparison) (right : Operand)
  | between (value low high : Operand)
  | among (value : Operand) (candidates : List Operand)
  | and (left right : Expr)
  | or (left right : Expr)
  | not (inner : Expr)
  | call (function : Function) (arguments : List Operand)
deriving DecidableEq, Repr

namespace PathStep

/-- A step as it is written behind a path. -/
def text : PathStep → String
  | .field name => "." ++ name
  | .index i => "[" ++ toString i ++ "]"

end PathStep

namespace Path

/-- A path as it is written. -/
def text (p : Path) : String :=
  p.head ++ String.join (p.steps.map PathStep.text)

/-- The names along a path. -/
def names (p : Path) : List String :=
  p.head :: p.steps.filterMap fun
    | .field name => some name
    | .index _ => none

end Path

namespace Expr

/-- The conditions that an expression joins by AND, from left to right. -/
def conjuncts : Expr → List Expr
  | .and left right => conjuncts left ++ conjuncts right
  | e => [e]

end Expr

end RecordStore
