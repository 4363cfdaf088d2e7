import RecordStore.Attribute.Document
import RecordStore.Query.Aliases
import RecordStore.Query.Condition
import RecordStore.Query.Definition
import RecordStore.Store.Request

/-!
# Tests

A `Test` is what one operator asks of one attribute, with its operands checked and turned into attributes. `Test.check`
makes it from a clause of a definition and draws no alias; `Test.bind` makes a `BoundCondition` of it: a condition over
fresh aliases, with what the aliases stand for. Bound conditions are joined by joining their conditions and what their
aliases stand for.
-/

namespace RecordStore

/-- What is asked of an attribute. -/
inductive Test where
  | compare (op : Comparison) (operand : Attribute)
  | between (low high : Attribute)
  | beginsWith (front : Attribute)
  | contains (part : Attribute)
  | notContains (part : Attribute)
  /-- Equality with one of some candidates, of which the first is given apart. -/
  | among (first : Attribute) (others : List Attribute)
  | exists
  | notExists
deriving DecidableEq, Repr

namespace Test

/-- Whether a lower bound is not above an upper one; `none` if they cannot be compared. -/
def inOrder? : Json → Json → Option Bool
  | .number (.whole a), .number (.whole b) => some (a ≤ b)
  | .number a, .number b =>
    match a.toBinary64.partialCompare b.toBinary64 with
    | some o => some (o ≠ .gt)
    | none => some false
  | .string a, .string b => some (a ≤ b)
  | _, _ => none

/-- Checks the operand of a range. -/
def checkBetween (field : String) : Json → Except CompileError Test
  | .array [low, high] =>
    match inOrder? low high with
    | some true => .ok (.between (.ofJson low) (.ofJson high))
    | some false => .error (.boundsReversed field low high)
    | none => .error (.boundKinds field low.kind high.kind)
  | .array bounds => .error (.boundCount field bounds.length)
  | j => .error (.boundsNotArray field j.kind)

/-- Checks a list of candidates. -/
def checkAmong (field : String) : Json → Except CompileError Test
  | .array [] => .error (.noCandidates field)
  | .array (first :: others) => .ok (.among (.ofJson first) (others.map .ofJson))
  | j => .error (.candidatesNotArray field j.kind)

/-- Checks what an operator is given. -/
def check (field : String) (op : Operator) (operand : Json) : Except CompileError Test :=
  match op with
  | .compare op => .ok (.compare op (.ofJson operand))
  | .between => checkBetween field operand
  | .beginsWith =>
    match operand with
    | .string s => .ok (.beginsWith (.text s))
    | j => .error (.beginningNotText field j.kind)
  | .contains => .ok (.contains (.ofJson operand))
  | .notContains => .ok (.notContains (.ofJson operand))
  | .among => checkAmong field operand
  | .exists => .ok .exists
  | .notExists => .ok .notExists

/-- Checks a clause. A tag that is no operator is refused if `strict`, and else asks for nothing. -/
def checkClause (strict : Bool) (field : String) (clause : Clause) : Except CompileError (Option Test) :=
  match Operator.ofTag? clause.tag with
  | some op => some <$> check field op clause.operand
  | none => if strict then .error (.unknownOperator field clause.tag) else .ok none

end Test

/-! ## Bound conditions -/

/-- A condition and what its aliases stand for. -/
structure BoundCondition where
  condition : Condition
  names : NameAliases
  values : ValueAliases

namespace BoundCondition

/-- The text of the condition. -/
def text (b : BoundCondition) : String := b.condition.text

/-- What the name aliases of some conditions stand for. -/
def allNames (bs : List BoundCondition) : NameAliases :=
  bs.foldl (fun names b => names.merge b.names) []

/-- What the value aliases of some conditions stand for. -/
def allValues (bs : List BoundCondition) : ValueAliases :=
  bs.foldl (fun values b => values.merge b.values) []

/-- Some conditions joined into one; there is none of no conditions. -/
def joined (join : List Condition → Condition) : List BoundCondition → Option BoundCondition
  | [] => none
  | bs => some ⟨join (bs.map (·.condition)), allNames bs, allValues bs⟩

/-- The condition that all of some conditions hold. -/
def all (bs : List BoundCondition) : Option BoundCondition := joined .conjunction bs

/-- The condition that one of some conditions holds. -/
def any (bs : List BoundCondition) : Option BoundCondition := joined .disjunction bs

end BoundCondition

namespace Test

/-- Issues an alias for each of some values: the aliases, and what they stand for. -/
def bindValues : List Attribute → StateM Aliases (List (String × Attribute))
  | [] => pure []
  | a :: rest => do
    let drawn ← Aliases.drawValue
    let more ← bindValues rest
    return (drawn, a) :: more

/-- The values of a test, for each of which it needs an alias. -/
def values : Test → List Attribute
  | .compare _ a | .beginsWith a | .contains a | .notContains a => [a]
  | .between low high => [low, high]
  | .among first others => first :: others
  | .exists | .notExists => []

/-- The condition of a test on a name alias and the aliases of its values. -/
def condition (name : String) : Test → List String → Condition
  | .compare op _, values => .compare name op (values.headD "")
  | .between _ _, values => .between name (values.headD "") (values.getD 1 "")
  | .beginsWith _, values => .call .beginsWith name values.head?
  | .contains _, values => .call .contains name values.head?
  | .notContains _, values => .not (.call .contains name values.head?)
  | .among _ _, values => .disjunction (values.map fun v => .compare name .eq v)
  | .exists, _ => .call .attributeExists name none
  | .notExists, _ => .call .attributeNotExists name none

/-- The condition that a test holds of a field. The name takes the first alias, the values those behind it. -/
def bind (field : String) (test : Test) : StateM Aliases BoundCondition := do
  let name ← Aliases.drawName
  let bound ← bindValues test.values
  return ⟨test.condition name (bound.map (·.1)), [(name, field)], Fields.ofList bound⟩

end Test

end RecordStore
