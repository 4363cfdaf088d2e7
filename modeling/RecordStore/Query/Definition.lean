import RecordStore.Json.Basic
import RecordStore.Json.Printer
import RecordStore.Query.Operator

/-!
# Definitions

A definition is an object whose keys are names of fields or one of the group tags `$and` and `$or`. A field stands for
equality with its value or, if the value is an object, for the operators in it. Fields at the top and in the members of
`$and` must all hold; of the fields in the members of `$or`, one must.

`Definition.ofJson` reads a definition; `CompileError` is what can be wrong with one, when it is read or compiled.
-/

namespace RecordStore

/-- What is wrong with a definition. -/
inductive CompileError where
  /-- The definition is no object. -/
  | notAnObject (kind : JsonKind)
  /-- A tag at the top that is no group. -/
  | unknownGroup (tag : String)
  /-- A group that is no array. -/
  | groupNotArray (tag : String) (kind : JsonKind)
  /-- A member of a group that is no object. -/
  | memberNotObject (tag : String) (kind : JsonKind)
  /-- A tag that is no operator, where such tags are refused. -/
  | unknownOperator (field tag : String)
  /-- A range with more or fewer than two bounds. -/
  | boundCount (field : String) (count : Nat)
  /-- A range that is no array. -/
  | boundsNotArray (field : String) (kind : JsonKind)
  /-- Bounds that are not both numbers or both strings. -/
  | boundKinds (field : String) (low high : JsonKind)
  /-- A lower bound above the upper one. -/
  | boundsReversed (field : String) (low high : Json)
  /-- The beginning of a text that is no text. -/
  | beginningNotText (field : String) (kind : JsonKind)
  /-- A list of candidates without any. -/
  | noCandidates (field : String)
  /-- Candidates that are no array. -/
  | candidatesNotArray (field : String) (kind : JsonKind)
  /-- A field of which nothing is asked. -/
  | emptyCondition (field : String)
  /-- An operator that is not for keys. -/
  | notForKeys (field tag : String)
deriving DecidableEq, Repr

namespace CompileError

/-- A message about the shape of a definition. -/
def shapeMessage (text : String) : String := "Invalid query definition: " ++ text

/-- A message about a range. -/
def rangeMessage (field text : String) : String := "Invalid $between on field " ++ field ++ ": " ++ text

/-- A message about what an operator is given. -/
def operandMessage (op : Operator) (field text : String) : String :=
  "Invalid operand for " ++ op.tag ++ " on field " ++ field ++ ": " ++ text

/-- The message of an error. -/
def message : CompileError → String
  | .notAnObject kind => shapeMessage ("expected an object, got " ++ kind.name)
  | .unknownGroup tag => shapeMessage ("unknown group tag " ++ tag)
  | .groupNotArray tag kind => shapeMessage (tag ++ " expects an array, got " ++ kind.name)
  | .memberNotObject tag kind => shapeMessage (tag ++ " members must be objects, got " ++ kind.name)
  | .unknownOperator field tag => "Unknown operator " ++ tag ++ " on field " ++ field
  | .boundCount field count => rangeMessage field ("expected exactly two bounds, got " ++ toString count)
  | .boundsNotArray field kind => rangeMessage field ("expected a [from, to] array, got " ++ kind.name)
  | .boundKinds field low high =>
    rangeMessage field ("bounds must both be numbers or both be strings, got " ++ low.name ++ " and " ++ high.name)
  | .boundsReversed field low high =>
    rangeMessage field ("lower bound " ++ low.text ++ " is greater than upper bound " ++ high.text)
  | .beginningNotText field kind => operandMessage .beginsWith field ("expected a string prefix, got " ++ kind.name)
  | .noCandidates field => operandMessage .among field "the candidate list is empty"
  | .candidatesNotArray field kind => operandMessage .among field ("expected an array, got " ++ kind.name)
  | .emptyCondition field => "Field " ++ field ++ " has no usable condition"
  | .notForKeys field tag => "Operator " ++ tag ++ " is not allowed in a key condition on field " ++ field

end CompileError

/-- An operator, by its tag, and what it is given. -/
structure Clause where
  tag : String
  operand : Json
deriving DecidableEq, Repr

/-- What is asked of a field. -/
inductive LeafCondition where
  | equals (value : Json)
  | operators (clauses : List Clause)
deriving DecidableEq, Repr

/-- A field and what is asked of it. -/
structure Leaf where
  field : String
  condition : LeafCondition
deriving DecidableEq, Repr

/-- A definition: the fields at the top, and the members of its two groups. -/
structure Definition where
  leaves : List Leaf := []
  allOf : List (List Leaf) := []
  anyOf : List (List Leaf) := []
deriving DecidableEq, Repr

namespace Leaf

/-- Equality of a field with a value. -/
def equals (field : String) (value : Json) : Leaf := ⟨field, .equals value⟩

/-- One operator on a field. -/
def op (field : String) (op : Operator) (operand : Json) : Leaf := ⟨field, .operators [⟨op.tag, operand⟩]⟩

/-- The leaf that a field of an object stands for. -/
def ofField (field : String × Json) : Leaf :=
  match field.2 with
  | .object operators => ⟨field.1, .operators (operators.map fun entry => ⟨entry.1, entry.2⟩)⟩
  | value => .equals field.1 value

/-- The tags of the operators of a leaf. -/
def tags (leaf : Leaf) : List String :=
  match leaf.condition with
  | .equals _ => [(Operator.compare .eq).tag]
  | .operators clauses => clauses.map (·.tag)

end Leaf

namespace Definition

/-- The tag of the group of which all must hold. -/
def allTag : String := "$and"

/-- The tag of the group of which one must hold. -/
def anyTag : String := "$or"

/-- Reads a member of a group. -/
def memberOfJson (tag : String) : Json → Except CompileError (List Leaf)
  | .object fields => .ok (fields.map Leaf.ofField)
  | j => .error (.memberNotObject tag j.kind)

/-- Reads a group. -/
def groupOfJson (tag : String) : Json → Except CompileError (List (List Leaf))
  | .array members => members.mapM (memberOfJson tag)
  | j => .error (.groupNotArray tag j.kind)

/-- Adds the fields of an object to a definition, one after the other. -/
def addFields (d : Definition) : List (String × Json) → Except CompileError Definition
  | [] => .ok d
  | (name, value) :: rest =>
    if name = allTag then do
      addFields { d with allOf := ← groupOfJson allTag value } rest
    else if name = anyTag then do
      addFields { d with anyOf := ← groupOfJson anyTag value } rest
    else if name.toList.head? = some '$' then .error (.unknownGroup name)
    else addFields { d with leaves := d.leaves ++ [Leaf.ofField (name, value)] } rest

/-- Reads a definition. -/
def ofJson : Json → Except CompileError Definition
  | .object fields => addFields {} fields
  | j => .error (.notAnObject j.kind)

/-! ## Building -/

/-- The definition with equality of a field at the top. -/
def equals (d : Definition) (field : String) (value : Json) : Definition :=
  { d with leaves := d.leaves ++ [.equals field value] }

/-- The definition with an operator on a field at the top. -/
def withOperator (d : Definition) (field : String) (op : Operator) (operand : Json) : Definition :=
  { d with leaves := d.leaves ++ [.op field op operand] }

/-- The definition with a member in the group of which all must hold. -/
def and (d : Definition) (member : List Leaf) : Definition :=
  { d with allOf := d.allOf ++ [member] }

/-- The definition with a member in the group of which one must hold. -/
def or (d : Definition) (member : List Leaf) : Definition :=
  { d with anyOf := d.anyOf ++ [member] }

/-! ## Looking inside -/

/-- The leaves that must all hold. -/
def required (d : Definition) : List Leaf :=
  d.leaves ++ d.allOf.flatten

/-- The leaves of which one must hold, if there are any. -/
def alternatives (d : Definition) : List Leaf :=
  d.anyOf.flatten

/-- All leaves. -/
def all (d : Definition) : List Leaf :=
  d.required ++ d.alternatives

/-- Whether nothing is asked. -/
def isEmpty (d : Definition) : Bool :=
  d.all.isEmpty

end Definition

end RecordStore
