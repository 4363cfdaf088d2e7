import RecordStore.Collection.Basic

/-!
# Reading records by their ids

One record is read by one request. Many are read in batches: what the store leaves undone of a batch is asked for again,
a number of times, and then left out. If the store fails after records were found, those are the answer.
-/

namespace RecordStore

namespace Collection

variable {σ : Type} [Store σ]

/-- The record with an id, if it is there; with fields, only those of it. -/
def get (c : Collection) (suffix id : String) (fields : Option (List String)) : Call σ AccessError (Option Record) := do
  Call.ofExcept (AccessError.requireTexts [("PartitionKey", c.entity.partitionValue), ("Id", id)])
  let projection ← Call.ofExcept (c.projection suffix fields)
  let response ← ofStore (Store.get {
    table := c.entity.table
    key := c.entity.key id
    projection := projection.projection
    names := projection.names })
  return response.item.map Item.toRecord

/-- Whether there is a record with an id. -/
def exists? (c : Collection) (suffix id : String) : Call σ AccessError Bool := do
  let found ← c.get suffix id (some [c.entity.sortField])
  return found.any fun record => record.has c.entity.sortField

/-! ## Batches -/

/-- The most ids in one batch. -/
def getChunk : Nat := 100

/-- How often a batch is sent, at most. -/
def maxRounds (c : Collection) : Nat :=
  max c.settings.batchRounds 1

/--
Reads a batch, with what was read before, and what is left undone of it as often as it may be sent yet. Also says
whether the store failed, after which nothing more is read.
-/
def getRounds (c : Collection) : Nat → KeyBatch → List Record → Call σ AccessError (List Record × Bool)
  | 0, _, found => return (found, false)
  | n + 1, batch, found => do
    match ← Call.attempt (ofStore (Store.batchGet ⟨[(c.entity.table, batch)]⟩)) with
    | .error e => if found.isEmpty then throw e else return (found, true)
    | .ok response =>
      let found := found ++ ((response.items.find c.entity.table).getD []).map Item.toRecord
      match (response.unprocessed.find c.entity.table).filter fun left => !left.keys.isEmpty with
      | some left => c.getRounds n left found
      | none => return (found, false)

/-- Reads one batch after the other. -/
def getChunks (c : Collection) (projection : Compiled) :
    List (List String) → List Record → Call σ AccessError (List Record)
  | [], found => return found
  | ids :: rest, found => do
    let batch : KeyBatch :=
      { keys := ids.map c.entity.key
        projection := projection.projection
        names := projection.names
        consistent := if c.settings.consistentBatches then some true else none }
    let (found, failed) ← c.getRounds c.maxRounds batch found
    if failed then return found else c.getChunks projection rest found

/-- The records with some ids, those that are there; with fields, only those of them. -/
def batchGet (c : Collection) (suffix : String) (ids : List String) (fields : Option (List String)) :
    Call σ AccessError (List Record) := do
  Call.ofExcept (ids.forM checkId)
  let projection ← Call.ofExcept (c.projection suffix fields)
  c.getChunks projection (chunksOf getChunk ids) []

end Collection

end RecordStore
