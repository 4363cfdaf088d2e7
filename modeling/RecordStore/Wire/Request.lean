import RecordStore.Store.Basic
import RecordStore.Wire.Store

/-!
# Requests of any operation

`Request` puts the requests of all operations into one type. A request is read from a document once its operation is
known, and `Request.send` sends it and writes the response, so that a store can be driven by documents alone.
-/

namespace RecordStore

/-- A request of any operation. -/
inductive Request where
  | query (r : QueryRequest)
  | scan (r : ScanRequest)
  | put (r : PutRequest)
  | get (r : GetRequest)
  | delete (r : DeleteRequest)
  | batchGet (r : BatchGetRequest)
  | batchWrite (r : BatchWriteRequest)
deriving DecidableEq, Repr

namespace Request

/-- The operation that a request asks for. -/
def operation : Request → Operation
  | .query _ => .query
  | .scan _ => .scan
  | .put _ => .putItem
  | .get _ => .getItem
  | .delete _ => .deleteItem
  | .batchGet _ => .batchGetItem
  | .batchWrite _ => .batchWriteItem

/-- A request as it is sent. -/
def toWire : Request → Json
  | .query r => r.toWire
  | .scan r => r.toWire
  | .put r => r.toWire
  | .get r => r.toWire
  | .delete r => r.toWire
  | .batchGet r => r.toWire
  | .batchWrite r => r.toWire

/-- Reads a request of an operation from a document. -/
def ofWire (operation : Operation) (j : Json) : Except WireError Request :=
  match operation with
  | .query => .query <$> QueryRequest.ofWire j
  | .scan => .scan <$> ScanRequest.ofWire j
  | .putItem => .put <$> PutRequest.ofWire j
  | .getItem => .get <$> GetRequest.ofWire j
  | .deleteItem => .delete <$> DeleteRequest.ofWire j
  | .batchGetItem => .batchGet <$> BatchGetRequest.ofWire j
  | .batchWriteItem => .batchWrite <$> BatchWriteRequest.ofWire j

/-- Sends a request, and gives the response as it is sent back. -/
def send {σ : Type} [Store σ] : Request → Call σ StoreError Json
  | .query r => ReadResponse.toWire <$> Store.query r
  | .scan r => ReadResponse.toWire <$> Store.scan r
  | .put r => WriteResponse.toWire <$> Store.put r
  | .get r => GetResponse.toWire <$> Store.get r
  | .delete r => WriteResponse.toWire <$> Store.delete r
  | .batchGet r => BatchGetResponse.toWire <$> Store.batchGet r
  | .batchWrite r => BatchWriteResponse.toWire <$> Store.batchWrite r

end Request

end RecordStore
