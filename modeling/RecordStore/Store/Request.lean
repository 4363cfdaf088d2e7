import RecordStore.Attribute.Basic

/-!
# Requests and responses of a store

Seven operations reach a store: put, get and delete one item, query and scan a table or one of its indexes, and get or
write many items at once. A request whose expressions use aliases carries two maps, one from `#` aliases to names
and one from `:` aliases to values. Queries and scans share most of a request (`ScanRequest`) and all of a response
(`ReadResponse`).
-/

namespace RecordStore

/-- The operations of a store. -/
inductive Operation where
  | putItem
  | getItem
  | deleteItem
  | query
  | scan
  | batchGetItem
  | batchWriteItem
deriving DecidableEq, Repr

namespace Operation

/-- All operations. -/
def all : List Operation :=
  [.putItem, .getItem, .deleteItem, .query, .scan, .batchGetItem, .batchWriteItem]

/-- The name of an operation. -/
def name : Operation → String
  | .putItem => "PutItem"
  | .getItem => "GetItem"
  | .deleteItem => "DeleteItem"
  | .query => "Query"
  | .scan => "Scan"
  | .batchGetItem => "BatchGetItem"
  | .batchWriteItem => "BatchWriteItem"

/-- The operation of a name. -/
def ofName? (name : String) : Option Operation :=
  all.find? fun op => op.name = name

/-- Whether an operation leaves the items of a store as they are. -/
def isRead : Operation → Bool
  | .getItem | .query | .scan | .batchGetItem => true
  | .putItem | .deleteItem | .batchWriteItem => false

end Operation

/-- The types that a key attribute may have. -/
inductive KeyType where
  | text
  | number
  | binary
deriving DecidableEq, Repr

namespace KeyType

/-- All key types. -/
def all : List KeyType := [.text, .number, .binary]

/-- The type of an attribute, as an attribute type. -/
def attributeType : KeyType → AttributeType
  | .text => .text
  | .number => .number
  | .binary => .binary

/-- The tag of a key type. -/
def tag (t : KeyType) : String := t.attributeType.tag

/-- The key type of a tag. -/
def ofTag? (tag : String) : Option KeyType :=
  all.find? fun t => t.tag = tag

/-- The type of a key of which no type is given. -/
def default : KeyType := .text

/-- Whether an attribute has a key type. -/
def accepts (t : KeyType) (a : Attribute) : Bool :=
  a.type = t.attributeType

end KeyType

/-! ## Requests -/

/-- What the `#` aliases of an expression stand for. -/
abbrev NameAliases := Fields String

/-- What the `:` aliases of an expression stand for. -/
abbrev ValueAliases := Fields Attribute

/-- Puts an item in the place of the one with its key. -/
structure PutRequest where
  table : String
  item : Item
deriving DecidableEq, Repr

/-- Asks for the item with a key. -/
structure GetRequest where
  table : String
  key : Key
  consistent : Option Bool := none
  projection : Option String := none
  names : NameAliases := []
deriving DecidableEq, Repr

/-- Takes away the item with a key. -/
structure DeleteRequest where
  table : String
  key : Key
deriving DecidableEq, Repr

/-- Asks for the items of a table or index, from a key on. -/
structure ScanRequest where
  table : String
  index : Option String := none
  filter : Option String := none
  projection : Option String := none
  names : NameAliases := []
  values : ValueAliases := []
  /-- How many items may be evaluated at most. -/
  limit : Option Int := none
  /-- The key after which to go on; the empty key stands for the start. -/
  after : Key := []
  consistent : Option Bool := none
deriving DecidableEq, Repr

/-- Asks for the items that meet a condition on their keys. -/
structure QueryRequest extends ScanRequest where
  keyCondition : Option String := none
  /-- Whether to go upwards; downwards only if this is said to be false. -/
  forward : Option Bool := none
deriving DecidableEq, Repr

/-- The keys to get from one table, and what of their items. -/
structure KeyBatch where
  keys : List Key
  projection : Option String := none
  names : NameAliases := []
  consistent : Option Bool := none
deriving DecidableEq, Repr

/-- Gets many items, by table. -/
structure BatchGetRequest where
  tables : Fields KeyBatch
deriving DecidableEq, Repr

/-- One write among many: an item to put or a key to delete. -/
structure WriteEntry where
  put : Option Item := none
  delete : Option Key := none
deriving DecidableEq, Repr

/-- Writes many items, by table. -/
structure BatchWriteRequest where
  tables : Fields (List WriteEntry)
deriving DecidableEq, Repr

namespace WriteEntry

/-- The entry that puts an item. -/
def ofItem (item : Item) : WriteEntry := ⟨some item, none⟩

/-- The entry that deletes the item with a key. -/
def ofKey (key : Key) : WriteEntry := ⟨none, some key⟩

end WriteEntry

/-! ## Responses -/

/-- The answer to a put or delete: possibly the item that was there. -/
structure WriteResponse where
  replaced : Option Item := none
deriving DecidableEq, Repr

/-- The answer to a get: the item, if there is one. -/
structure GetResponse where
  item : Option Item := none
deriving DecidableEq, Repr

/-- The answer to a query or scan. -/
structure ReadResponse where
  items : List Item
  count : Int
  /-- How many items were evaluated before filtering. -/
  scanned : Int
  /-- The last key evaluated, if there may be more behind it. -/
  lastKey : Option Key
deriving DecidableEq, Repr

/-- The answer to a batch get: items by table, and what is left to be asked for again. -/
structure BatchGetResponse where
  items : Fields (List Item)
  unprocessed : Fields KeyBatch := []
deriving DecidableEq, Repr

/-- The answer to a batch write: what is left to be sent again. -/
structure BatchWriteResponse where
  unprocessed : Fields (List WriteEntry) := []
deriving DecidableEq, Repr

end RecordStore
