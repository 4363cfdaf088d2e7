import RecordStore.Store.Error
import RecordStore.Store.Request

/-!
# Calling a store

A store is seen as a state machine: a `Call` takes the state of the store to an answer or an error and the state after
it, which is kept also after an error. `Store σ` says that `σ` is the state of a store with the seven operations.
-/

namespace RecordStore

/-- A computation that calls a store in the state `σ` and may fail. -/
abbrev Call (σ ε α : Type) := ExceptT ε (StateM σ) α

namespace Call

variable {σ ε α : Type}

/-- The outcome of a call from a state, and the state after it. -/
def outcome (call : Call σ ε α) (s : σ) : Except ε α × σ :=
  call s

/-- A call that fails or answers without changing anything. -/
def ofExcept (e : Except ε α) : Call σ ε α :=
  fun s => (e, s)

/-- A call with its error changed by `f`. -/
def mapError {ε' : Type} (f : ε → ε') (call : Call σ ε α) : Call σ ε' α := fun s =>
  match call s with
  | (.ok a, s') => (.ok a, s')
  | (.error e, s') => (.error (f e), s')

/-- The outcome of a call as a value, so that the computation goes on after an error. -/
def attempt (call : Call σ ε α) : Call σ ε (Except ε α) := fun s =>
  match call s with
  | (r, s') => (.ok r, s')

end Call

/-- States of a store that answers requests, one at a time. -/
class Store (σ : Type) where
  query : QueryRequest → Call σ StoreError ReadResponse
  scan : ScanRequest → Call σ StoreError ReadResponse
  put : PutRequest → Call σ StoreError WriteResponse
  get : GetRequest → Call σ StoreError GetResponse
  delete : DeleteRequest → Call σ StoreError WriteResponse
  batchGet : BatchGetRequest → Call σ StoreError BatchGetResponse
  batchWrite : BatchWriteRequest → Call σ StoreError BatchWriteResponse
  /-- More reads than can follow on one another, each going on after the last key of the one before. -/
  readBound : σ → Nat

end RecordStore
