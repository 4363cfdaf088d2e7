import RecordStore.Collection.Get

/-!
# Writing records

Data is stored as a record once it is an object, has the required fields, has its key fields set and has passed the
check of the collection. What the collection itself sets, the key fields and the times, is set again after that check.
-/

namespace RecordStore

namespace Collection

variable {σ : Type} [Store σ]

/-- The fields that the collection sets, and their values in a record. -/
def ownFields (c : Collection) (record : Record) : List (String × Json) :=
  [c.entity.partitionField, c.entity.sortField, createdField, modifiedField].filterMap fun name =>
    (record.find name).map (name, ·)

/-- Checks a record and stores it; gives what was stored. -/
def save (c : Collection) (record : Record) : Call σ AccessError Record := do
  let checked ← Call.ofExcept (c.check record)
  let stored := Fields.merge checked (c.ownFields record)
  let _ ← ofStore (Store.put { table := c.entity.table, item := Record.toItem stored })
  return stored

/-- Stores data as a new record, under the id that it has or else a fresh one. -/
def create (c : Collection) (freshId now : String) (data : Json) : Call σ AccessError Record := do
  let record ← Call.ofExcept (Record.ofJson data)
  Call.ofExcept (c.entity.demandFields record)
  let id := (c.entity.id? record).getD freshId
  c.save (c.entity.stamp id (Fields.put createdField (.string now) record))

/-- Stores data in the place of the record whose id it has. -/
def replace (c : Collection) (now : String) (data : Json) : Call σ AccessError Record := do
  let record ← Call.ofExcept (Record.ofJson data)
  match c.entity.id? record with
  | none => throw (.misuse .noId)
  | some id =>
    Call.ofExcept (c.entity.demandFields record)
    c.save (c.entity.stamp id (Fields.put modifiedField (.string now) record))

/-- Changes the fields of the record with an id to those of the data. -/
def update (c : Collection) (id : String) (data : Json) : Call σ AccessError Record := do
  let changes ← Call.ofExcept (Record.ofJson data)
  Call.ofExcept (checkId id)
  match ← c.get "" id none with
  | none => throw (.notFound .toUpdate)
  | some record =>
    Call.ofExcept (c.entity.demandFields changes)
    c.save (c.entity.stamp id (Fields.merge record changes))

/-- Takes away the record with an id; gives the record. -/
def delete (c : Collection) (id : String) : Call σ AccessError Record := do
  Call.ofExcept (checkId id)
  match ← c.get "" id none with
  | none => throw (.notFound .toDelete)
  | some record =>
    let _ ← ofStore (Store.delete { table := c.entity.table, key := c.entity.key id })
    return record

/-! ## Batches -/

/-- The most ids in one batch. -/
def deleteChunk : Nat := 25

/-- The error of a batch of which the store has left something undone too often. -/
def leftUndone (c : Collection) (left : Nat) : AccessError :=
  .store ⟨.throttled,
    toString left ++ " deletes left unprocessed after " ++ toString c.maxRounds ++ " rounds", none⟩

/-- Sends a batch, and what is left undone of it, as often as it may be sent yet. -/
def deleteRounds (c : Collection) : Nat → List WriteEntry → Call σ AccessError Unit
  | _, [] => return ()
  | 0, left => throw (c.leftUndone left.length)
  | n + 1, batch => do
    let response ← ofStore (Store.batchWrite ⟨[(c.entity.table, batch)]⟩)
    c.deleteRounds n ((response.unprocessed.find c.entity.table).getD [])

/-- Sends one batch after the other. -/
def deleteChunks (c : Collection) : List (List String) → Call σ AccessError Unit
  | [] => return ()
  | ids :: rest => do
    c.deleteRounds c.maxRounds (ids.map fun id => .ofKey (c.entity.key id))
    c.deleteChunks rest

/-- Takes away the records with some ids; those that are not there do not matter. -/
def deleteMany (c : Collection) (ids : List String) : Call σ AccessError Unit := do
  Call.ofExcept (ids.forM checkId)
  c.deleteChunks (chunksOf deleteChunk ids)

end Collection

end RecordStore
