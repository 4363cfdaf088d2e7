import RecordStore.Table.SortKey

/-!
# Table shapes

A table has a partition key and possibly a sort key; so has each of its indexes. `KeyField.value` finds a key
attribute in an item and checks its type.
-/

namespace RecordStore

/-- A key attribute: its name and type. -/
structure KeyField where
  name : String
  type : KeyType
deriving DecidableEq, Repr

/-- The key of a table or index. -/
structure KeyShape where
  partition : KeyField
  sort : Option KeyField := none
deriving DecidableEq, Repr

/-- An index of a table. -/
structure IndexShape where
  name : String
  key : KeyShape
deriving DecidableEq, Repr

/-- A table: its name, its key and its indexes. -/
structure TableShape where
  name : String
  key : KeyShape
  indexes : List IndexShape := []
deriving DecidableEq, Repr

namespace KeyField

/-- Checks that a value has the type of the key attribute. -/
def checkValue (k : KeyField) (a : Attribute) : Except TableError Unit :=
  if k.type.accepts a then .ok () else .error (.wrongType k.name (some k.type) a.type)

/-- The value of the key attribute in an item, which must have it in the right type. -/
def value (k : KeyField) (item : Item) : Except TableError Attribute :=
  match item.find k.name with
  | none => .error (.missingKey k.name)
  | some a => do
    k.checkValue a
    .ok a

/-- The place of an item's key attribute in the order of keys. -/
def sortKey (k : KeyField) (item : Item) : Except TableError SortKey := do
  SortKey.ofAttribute? k.name (← k.value item)

end KeyField

namespace KeyShape

/-- The attributes of a key. -/
def attributes (k : KeyShape) : List KeyField :=
  k.partition :: k.sort.toList

/-- The parts of a position that a key gives, of which the second may be missing. -/
def parts (k : KeyShape) : List (Option KeyField) :=
  [some k.partition, k.sort]

end KeyShape

namespace TableShape

/-- The index of a name. -/
def index? (t : TableShape) (name : String) : Option IndexShape :=
  t.indexes.find? fun index => index.name = name

/-- The key attributes by which a read orders items: those of the index, if one is read, and those of the table. -/
def readOrder (t : TableShape) (index : Option IndexShape) : List (Option KeyField) :=
  (match index with | some i => i.key.parts | none => []) ++ t.key.parts

end TableShape

end RecordStore
