import RecordStore.Wire.Request

/-!
# A store that keeps a record of its requests

`Recorded σ` is a store `σ` together with the requests that reached it, the last one first. It answers as the store
does.
-/

namespace RecordStore

/-- A store and the requests that reached it, the last one first. -/
structure Recorded (σ : Type) where
  store : σ
  requests : List Request := []

namespace Recorded

variable {σ : Type}

/-- Keeps a request and passes a call on to the store. -/
def pass {α : Type} (request : Request) (call : Call σ StoreError α) : Call (Recorded σ) StoreError α := fun s =>
  match call s.store with
  | (r, store) => (r, ⟨store, request :: s.requests⟩)

instance [Store σ] : Store (Recorded σ) where
  query r := pass (.query r) (Store.query r)
  scan r := pass (.scan r) (Store.scan r)
  put r := pass (.put r) (Store.put r)
  get r := pass (.get r) (Store.get r)
  delete r := pass (.delete r) (Store.delete r)
  batchGet r := pass (.batchGet r) (Store.batchGet r)
  batchWrite r := pass (.batchWrite r) (Store.batchWrite r)
  readBound s := Store.readBound s.store

end Recorded

end RecordStore
