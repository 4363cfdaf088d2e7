import RecordStore.Attribute.Document

/-!
# Checking records

Before a record is stored it is checked, and what is stored may be less than what was given. A `FieldList` says which
fields a record has, of which type, and which of them it must have; all that is wrong with a record is reported at once,
in the order of the list.
-/

namespace RecordStore

/-- What a field may hold. -/
inductive FieldType where
  | any
  | string
  | number
  | boolean
  | array
  | object
deriving DecidableEq, Repr

namespace FieldType

/-- All types. -/
def all : List FieldType := [.any, .string, .number, .boolean, .array, .object]

/-- The word for a type. -/
def name : FieldType → String
  | .any => "any"
  | .string => "string"
  | .number => "number"
  | .boolean => "boolean"
  | .array => "array"
  | .object => "object"

/-- The type of a word. -/
def ofName? (name : String) : Option FieldType :=
  all.find? fun t => t.name = name

/-- Whether a document is of a type. -/
def accepts : FieldType → Json → Bool
  | .any, _ => true
  | .string, j => j.kind = .string
  | .number, j => j.kind = .number
  | .boolean, j => j.kind = .boolean
  | .array, j => j.kind = .array
  | .object, j => j.kind = .object

end FieldType

/-- What is asked of a field. -/
structure FieldSpec where
  name : String
  type : FieldType
  required : Bool
deriving DecidableEq, Repr

/-- What is wrong with a field. -/
inductive FieldFault where
  | missing (name : String)
  | wrongType (name : String) (expected : FieldType) (actual : JsonKind)
deriving DecidableEq, Repr

/-- The message about a field. -/
def FieldFault.message : FieldFault → String
  | .missing name => "\"" ++ name ++ "\" is required"
  | .wrongType name expected actual =>
    "\"" ++ name ++ "\" must be a " ++ expected.name ++ ", got " ++ actual.name

/-- What is wrong with a field in a record. A field that is null counts as missing. -/
def FieldSpec.fault? (spec : FieldSpec) (record : Record) : Option FieldFault :=
  match record.find spec.name with
  | none | some .null => if spec.required then some (.missing spec.name) else none
  | some j => if spec.type.accepts j then none else some (.wrongType spec.name spec.type j.kind)

/-- The fields of a record. -/
structure FieldList where
  specs : List FieldSpec := []
  /-- Whether fields that are not in the list are kept. -/
  keepOthers : Bool := false
deriving DecidableEq, Repr

namespace FieldList

/-- All that is wrong with a record. -/
def faults (list : FieldList) (record : Record) : List FieldFault :=
  list.specs.filterMap fun spec => spec.fault? record

/-- The record with the fields that are to be kept, or what is wrong with it. -/
def check (list : FieldList) (record : Record) : Except (List FieldFault) Record :=
  match list.faults record with
  | [] => .ok (if list.keepOthers then record else record.restrict (list.specs.map (·.name)))
  | faults => .error faults

end FieldList

end RecordStore
