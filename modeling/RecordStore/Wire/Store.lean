import RecordStore.Store.Request
import RecordStore.Wire.Message

/-!
# Requests and responses on the wire

Each request and response is sent as an object (`toWire`), and is read by its `form`, which lists its fields in order.
-/

namespace RecordStore

open Wire

/-- A list of items as it is sent. -/
def Item.listToWire (items : List Item) : Json :=
  .array (items.map Item.toWire)

/-- Aliases of names as they are sent. -/
def NameAliases.toWire? (names : NameAliases) : Option Json :=
  unlessEmpty .string names

/-- An item or a map of values as it is sent, unless it is empty. -/
def Item.toWire? (item : Item) : Option Json :=
  if item.isEmpty then none else some item.toWire

/-! ## Requests -/

namespace PutRequest

/-- A put as it is sent. -/
def toWire (r : PutRequest) : Json :=
  message [("TableName", some (.string r.table)), ("Item", some r.item.toWire)]

/-- The form of a put. -/
def form : Form PutRequest :=
  .mk <$> required "TableName" string <*> required "Item" Item.ofWire

/-- Reads a put. -/
def ofWire : Decoder PutRequest :=
  form.decode

end PutRequest

namespace GetRequest

/-- A get as it is sent. -/
def toWire (r : GetRequest) : Json :=
  message
    [("TableName", some (.string r.table)), ("Key", some r.key.toWire), ("ConsistentRead", r.consistent.map .bool),
     ("ProjectionExpression", r.projection.map .string), ("ExpressionAttributeNames", r.names.toWire?)]

/-- The form of a get. -/
def form : Form GetRequest :=
  .mk <$> required "TableName" string <*> required "Key" Item.ofWire <*> optional "ConsistentRead" bool <*>
    optional "ProjectionExpression" string <*> defaulted "ExpressionAttributeNames" (map string) []

/-- Reads a get. -/
def ofWire : Decoder GetRequest :=
  form.decode

end GetRequest

namespace DeleteRequest

/-- A delete as it is sent. -/
def toWire (r : DeleteRequest) : Json :=
  message [("TableName", some (.string r.table)), ("Key", some r.key.toWire)]

/-- The form of a delete. -/
def form : Form DeleteRequest :=
  .mk <$> required "TableName" string <*> required "Key" Item.ofWire

/-- Reads a delete. -/
def ofWire : Decoder DeleteRequest :=
  form.decode

end DeleteRequest

namespace ScanRequest

/-- The fields of a read as they are sent. -/
def wireFields (r : ScanRequest) : List (String × Option Json) :=
  [("TableName", some (.string r.table)), ("IndexName", r.index.map .string),
   ("FilterExpression", r.filter.map .string), ("ProjectionExpression", r.projection.map .string),
   ("ExpressionAttributeNames", r.names.toWire?), ("ExpressionAttributeValues", Item.toWire? r.values),
   ("Limit", r.limit.map fun n => .number (.whole n)), ("ExclusiveStartKey", Item.toWire? r.after),
   ("ConsistentRead", r.consistent.map .bool)]

/-- A scan as it is sent. -/
def toWire (r : ScanRequest) : Json :=
  message r.wireFields

/-- The form of a scan. -/
def form : Form ScanRequest :=
  .mk <$> required "TableName" string <*> optional "IndexName" string <*> optional "FilterExpression" string <*>
    optional "ProjectionExpression" string <*> defaulted "ExpressionAttributeNames" (map string) [] <*>
    defaulted "ExpressionAttributeValues" Item.ofWire [] <*> optional "Limit" int32 <*>
    defaulted "ExclusiveStartKey" Item.ofWire [] <*> optional "ConsistentRead" bool

/-- Reads a scan. -/
def ofWire : Decoder ScanRequest :=
  form.decode

end ScanRequest

namespace QueryRequest

/-- A query as it is sent. -/
def toWire (r : QueryRequest) : Json :=
  message (r.toScanRequest.wireFields ++
    [("KeyConditionExpression", r.keyCondition.map .string), ("ScanIndexForward", r.forward.map .bool)])

/-- The query with some fields, in the order of its form. -/
def ofFields (table : String) (index keyCondition filter projection : Option String) (names : NameAliases)
    (values : ValueAliases) (forward : Option Bool) (limit : Option Int) (after : Key) (consistent : Option Bool) :
    QueryRequest :=
  { table, index, keyCondition, filter, projection, names, values, forward, limit, after, consistent }

/-- The form of a query. -/
def form : Form QueryRequest :=
  ofFields <$> required "TableName" string <*> optional "IndexName" string <*>
    optional "KeyConditionExpression" string <*> optional "FilterExpression" string <*>
    optional "ProjectionExpression" string <*> defaulted "ExpressionAttributeNames" (map string) [] <*>
    defaulted "ExpressionAttributeValues" Item.ofWire [] <*> optional "ScanIndexForward" bool <*>
    optional "Limit" int32 <*> defaulted "ExclusiveStartKey" Item.ofWire [] <*> optional "ConsistentRead" bool

/-- Reads a query. -/
def ofWire : Decoder QueryRequest :=
  form.decode

end QueryRequest

namespace KeyBatch

/-- The keys of one table as they are sent. -/
def toWire (b : KeyBatch) : Json :=
  message
    [("Keys", some (Item.listToWire b.keys)), ("ProjectionExpression", b.projection.map .string),
     ("ExpressionAttributeNames", b.names.toWire?), ("ConsistentRead", b.consistent.map .bool)]

/-- The form of the keys of one table. -/
def form : Form KeyBatch :=
  .mk <$> required "Keys" (list Item.ofWire) <*> optional "ProjectionExpression" string <*>
    defaulted "ExpressionAttributeNames" (map string) [] <*> optional "ConsistentRead" bool

/-- Reads the keys of one table. -/
def ofWire : Decoder KeyBatch :=
  form.decode

end KeyBatch

namespace BatchGetRequest

/-- A batch get as it is sent. -/
def toWire (r : BatchGetRequest) : Json :=
  message [("RequestItems", some (.object (r.tables.mapValues KeyBatch.toWire)))]

/-- The form of a batch get. -/
def form : Form BatchGetRequest :=
  .mk <$> required "RequestItems" (map KeyBatch.ofWire)

/-- Reads a batch get. -/
def ofWire : Decoder BatchGetRequest :=
  form.decode

end BatchGetRequest

namespace WriteEntry

/-- A write among many as it is sent. -/
def toWire (e : WriteEntry) : Json :=
  message
    [("PutRequest", e.put.map fun item => message [("Item", some item.toWire)]),
     ("DeleteRequest", e.delete.map fun key => message [("Key", some key.toWire)])]

/-- Reads a side of an entry, which has one field. -/
def sideOfWire (name : String) : Decoder Item :=
  (required name Item.ofWire).decode

/-- The form of a write among many. -/
def form : Form WriteEntry :=
  .mk <$> optional "PutRequest" (sideOfWire "Item") <*> optional "DeleteRequest" (sideOfWire "Key")

/-- Reads a write among many. -/
def ofWire : Decoder WriteEntry :=
  form.decode

/-- The entries for one table as they are sent. -/
def listToWire (entries : List WriteEntry) : Json :=
  .array (entries.map toWire)

end WriteEntry

namespace BatchWriteRequest

/-- A batch write as it is sent. -/
def toWire (r : BatchWriteRequest) : Json :=
  message [("RequestItems", some (.object (r.tables.mapValues WriteEntry.listToWire)))]

/-- The form of a batch write. -/
def form : Form BatchWriteRequest :=
  .mk <$> required "RequestItems" (map (list WriteEntry.ofWire))

/-- Reads a batch write. -/
def ofWire : Decoder BatchWriteRequest :=
  form.decode

end BatchWriteRequest

/-! ## Responses -/

namespace WriteResponse

/-- An answer to a put or delete as it is sent. -/
def toWire (r : WriteResponse) : Json :=
  message [("Attributes", r.replaced.map Item.toWire)]

/-- The form of an answer to a put or delete. -/
def form : Form WriteResponse :=
  .mk <$> optional "Attributes" Item.ofWire

/-- Reads an answer to a put or delete. -/
def ofWire : Decoder WriteResponse :=
  form.decode

end WriteResponse

namespace GetResponse

/-- An answer to a get as it is sent. -/
def toWire (r : GetResponse) : Json :=
  message [("Item", r.item.map Item.toWire)]

/-- The form of an answer to a get. -/
def form : Form GetResponse :=
  .mk <$> optional "Item" Item.ofWire

/-- Reads an answer to a get. -/
def ofWire : Decoder GetResponse :=
  form.decode

end GetResponse

namespace ReadResponse

/-- An answer to a query or scan as it is sent. -/
def toWire (r : ReadResponse) : Json :=
  message
    [("Items", some (Item.listToWire r.items)), ("Count", some (.number (.whole r.count))),
     ("ScannedCount", some (.number (.whole r.scanned))), ("LastEvaluatedKey", r.lastKey.map Item.toWire)]

/-- The form of an answer to a query or scan. -/
def form : Form ReadResponse :=
  .mk <$> defaulted "Items" (list Item.ofWire) [] <*> required "Count" int32 <*> required "ScannedCount" int32 <*>
    optional "LastEvaluatedKey" Item.ofWire

/-- Reads an answer to a query or scan. -/
def ofWire : Decoder ReadResponse :=
  form.decode

end ReadResponse

namespace BatchGetResponse

/-- An answer to a batch get as it is sent. -/
def toWire (r : BatchGetResponse) : Json :=
  message
    [("Responses", some (.object (r.items.mapValues Item.listToWire))),
     ("UnprocessedKeys", unlessEmpty KeyBatch.toWire r.unprocessed)]

/-- The form of an answer to a batch get. -/
def form : Form BatchGetResponse :=
  .mk <$> defaulted "Responses" (map (list Item.ofWire)) [] <*> defaulted "UnprocessedKeys" (map KeyBatch.ofWire) []

/-- Reads an answer to a batch get. -/
def ofWire : Decoder BatchGetResponse :=
  form.decode

end BatchGetResponse

namespace BatchWriteResponse

/-- An answer to a batch write as it is sent. -/
def toWire (r : BatchWriteResponse) : Json :=
  message [("UnprocessedItems", unlessEmpty WriteEntry.listToWire r.unprocessed)]

/-- The form of an answer to a batch write. -/
def form : Form BatchWriteResponse :=
  .mk <$> defaulted "UnprocessedItems" (map (list WriteEntry.ofWire)) []

/-- Reads an answer to a batch write. -/
def ofWire : Decoder BatchWriteResponse :=
  form.decode

end BatchWriteResponse

end RecordStore
