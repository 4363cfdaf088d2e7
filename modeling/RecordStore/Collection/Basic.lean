import RecordStore.EntityIndex
import RecordStore.Paging.Page

/-!
# Collections

A collection serves the records of one entity in one table. They all share a partition, and a record is known by its id
in the sort field. Both key fields belong to the collection: it sets them in every record that it stores.

What comes from outside, the ids of new records, the time, and the suffix that tells the aliases of one request from
those of another, is given to the operations that need it.
-/

namespace RecordStore

/-- An entity: its table, where in the table its records are, and what is asked of them. -/
structure Entity where
  table : String
  partitionValue : String
  partitionField : String := "featurePartition"
  sortField : String := "id"
  indexes : List EntityIndex := []
  /-- Fields that data to be stored must have. -/
  requiredFields : List String := []
deriving DecidableEq, Repr

/-- The records of an entity, with the settings and the check that apply to them. -/
structure Collection where
  entity : Entity
  settings : Settings := {}
  /-- Checks a record before it is stored; what is stored is what it returns. -/
  check : Record → Except AccessError Record := .ok

/-- The field that says when a record was created. -/
def createdField : String := "createdAtDate"

/-- The field that says when a record was last changed. -/
def modifiedField : String := "lastModifiedDate"

namespace Entity

/-- The key of the record with an id. -/
def key (e : Entity) (id : String) : Key :=
  Fields.ofList [(e.partitionField, .text e.partitionValue), (e.sortField, .text id)]

/-- The fields of the key. -/
def keyFields (e : Entity) : List String :=
  [e.partitionField, e.sortField]

/-- The id in a record; the empty text is none. -/
def id? (e : Entity) (record : Record) : Option String :=
  ((record.find e.sortField).bind Json.string?).filter fun id => !id.isEmpty

/-- A record with the key fields set. -/
def stamp (e : Entity) (id : String) (record : Record) : Record :=
  Fields.put e.sortField (.string id) (Fields.put e.partitionField (.string e.partitionValue) record)

/-- Asks that data has the required fields; null counts as missing. -/
def demandFields (e : Entity) (record : Record) : Except AccessError Unit :=
  match e.requiredFields.find? fun name => (record.find name).all (· = .null) with
  | some name => .error (.requiredField name)
  | none => .ok ()

end Entity

/-- Data as a record. -/
def Record.ofJson (data : Json) : Except AccessError Record :=
  match data with
  | .object fields => .ok fields
  | _ => .error (.misuse .notAnObject)

/-- A list cut into pieces of a size, the last possibly shorter. -/
def chunksOf {α : Type} (size : Nat) (xs : List α) : List (List α) :=
  cut xs.length xs
where
  /-- Cuts off at most so many pieces. -/
  cut : Nat → List α → List (List α)
    | 0, _ => []
    | _ + 1, [] => []
    | n + 1, x :: xs => (x :: xs).take size :: cut n ((x :: xs).drop size)

namespace Collection

variable {σ : Type} [Store σ]

/-- A call of the store, with its errors as errors of records. -/
def ofStore {α : Type} (call : Call σ StoreError α) : Call σ AccessError α :=
  call.mapError .store

/-- Checks an id. -/
def checkId (id : String) : Except AccessError Unit :=
  AccessError.requireTexts [("Id", id)]

/-- What a computation makes with the aliases of one request. -/
def compile {α : Type} (suffix : String) (c : Compile α) : Except AccessError α :=
  (c ⟨0, suffix⟩).1.mapError .definition

/-- The projection on some fields; none if there are none. -/
def projection (c : Collection) (suffix : String) (fields : Option (List String)) : Except AccessError Compiled :=
  compile suffix (Compile.definition c.settings.refuseUnknown {} (fields.getD []))

end Collection

end RecordStore
