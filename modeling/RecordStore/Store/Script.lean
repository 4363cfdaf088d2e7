import RecordStore.Store.Basic
import RecordStore.Wire.Store

/-!
# A store that answers by a script

A `Script` answers each request, whatever it is, with the next of its prepared responses. One that cannot be read as the
answer to the request is an error, and so is a request after the last response.
-/

namespace RecordStore

/-- Prepared responses: documents on the wire, or errors. -/
structure Script where
  responses : List (Except StoreError Json)

namespace Script

/-- Answers with the next response, read by `decode`. -/
def next {α : Type} (decode : Json → Except WireError α) : Call Script StoreError α := fun s =>
  match s.responses with
  | [] => (.error ⟨.internal, "script exhausted", none⟩, s)
  | .error e :: rest => (.error e, ⟨rest⟩)
  | .ok j :: rest =>
    match decode j with
    | .ok a => (.ok a, ⟨rest⟩)
    | .error _ => (.error (.ofCode .unreadable), ⟨rest⟩)

instance : Store Script where
  query _ := next ReadResponse.ofWire
  scan _ := next ReadResponse.ofWire
  put _ := next WriteResponse.ofWire
  get _ := next GetResponse.ofWire
  delete _ := next WriteResponse.ofWire
  batchGet _ := next BatchGetResponse.ofWire
  batchWrite _ := next BatchWriteResponse.ofWire
  readBound s := s.responses.length + 1

end Script

end RecordStore
