import RecordStore.AccessError
import RecordStore.Store.Request
import RecordStore.Wire.Message

/-!
# Secondary indexes

A secondary index orders the items of a table by other fields than the key of the table, and may carry only some of
their attributes.
-/

namespace RecordStore

/-- An index as a collection knows it. -/
structure EntityIndex where
  name : String
  partitionField : String
  sortField : String
  keyType : KeyType := .default
  /-- The fields that it carries; none stands for all. -/
  carriedFields : List String := []
deriving DecidableEq, Repr

/-- What an index carries of an item. -/
inductive Carried where
  | all
  | keysOnly
  | fields (names : List String)
deriving DecidableEq, Repr

/-- Reads a key type; a tag may stand alone or as a field that is null. -/
def KeyType.ofWire : Json → Except WireError KeyType
  | .string tag | .object [(tag, .null)] =>
    match KeyType.ofTag? tag with
    | some t => .ok t
    | none => .error .shape
  | _ => .error .shape

namespace EntityIndex

open Wire

/-- An index as a document. -/
def toWire (i : EntityIndex) : Json :=
  message
    [("indexName", some (.string i.name)), ("partitionField", some (.string i.partitionField)),
     ("sortField", some (.string i.sortField)), ("keyType", some (.string i.keyType.tag)),
     ("projectedFields", if i.carriedFields.isEmpty then none else some (.array (i.carriedFields.map .string)))]

/-- The form of an index. -/
def form : Form EntityIndex :=
  .mk <$> required "indexName" string <*> required "partitionField" string <*> required "sortField" string <*>
    defaulted "keyType" KeyType.ofWire .default <*> defaulted "projectedFields" (list string) []

/-- Reads an index from a document. -/
def ofWire : Decoder EntityIndex :=
  form.decode

/-- What an index carries, its own key fields aside. -/
def carries (i : EntityIndex) : Carried :=
  if i.carriedFields.isEmpty then .all
  else
    match i.carriedFields.filter fun f => f ≠ i.partitionField ∧ f ≠ i.sortField with
    | [] => .keysOnly
    | names => .fields names

/-- Checks that no name is blank and that the two key fields differ. -/
def check (i : EntityIndex) : Except AccessError Unit :=
  if [i.name, i.partitionField, i.sortField].any Text.isBlankText then .error (.index .definition)
  else if i.partitionField = i.sortField then .error (.index .fields)
  else .ok ()

/-- Finds the index of a name, which must be sound and have the partition field that is meant. -/
def find (indexes : List EntityIndex) (name partitionField : String) : Except AccessError EntityIndex :=
  if indexes.isEmpty then .error (.index .definition)
  else
    match indexes.find? fun i => i.name = name with
    | none => .error (.index .name)
    | some i => do
      i.check
      if i.partitionField = partitionField then .ok i else .error (.index .fields)

end EntityIndex

end RecordStore
