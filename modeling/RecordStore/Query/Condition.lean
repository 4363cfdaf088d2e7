import RecordStore.Expression.Basic

/-!
# Condition trees

A compiled condition refers to attributes and values by aliases alone. `Condition.text` writes it in the language of the
store: members of a conjunction or disjunction stand in parentheses unless there is just one.
-/

namespace RecordStore

/-- A condition over aliases. -/
inductive Condition where
  | compare (name : String) (op : Comparison) (value : String)
  | between (name low high : String)
  | call (function : Function) (name : String) (value : Option String)
  | not (inner : Condition)
  | all (members : List Condition)
  | any (members : List Condition)
deriving Inhabited, Repr

namespace Condition

/-- The conjunction of some conditions; a single one stands for itself. -/
def conjunction : List Condition → Condition
  | [c] => c
  | cs => .all cs

/-- The disjunction of some conditions; a single one stands for itself. -/
def disjunction : List Condition → Condition
  | [c] => c
  | cs => .any cs

mutual

/-- A condition in the language of the store. -/
def text : Condition → String
  | .compare name op value => name ++ " " ++ op.symbol ++ " " ++ value
  | .between name low high => name ++ " between " ++ low ++ " and " ++ high
  | .call f name (some value) => f.name ++ "(" ++ name ++ ", " ++ value ++ ")"
  | .call f name none => f.name ++ "(" ++ name ++ ")"
  | .not inner => "NOT " ++ text inner
  | .all [c] | .any [c] => text c
  | .all members => "(" ++ textJoined " AND " members ++ ")"
  | .any members => "(" ++ textJoined " OR " members ++ ")"

/-- Conditions with a word between them. -/
def textJoined (word : String) : List Condition → String
  | [] => ""
  | [c] => text c
  | c :: rest => text c ++ word ++ textJoined word rest

end

end Condition

end RecordStore
