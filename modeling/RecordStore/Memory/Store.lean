import RecordStore.Expression.Parser
import RecordStore.Memory.Faults
import RecordStore.Store.Basic
import RecordStore.Table.Read

/-!
# A store in memory

`MemoryStore` keeps tables by name and answers the seven operations. Every call is counted first and may fail by plan. A
read then finds its table and index, reads its expressions, checks that their aliases stand for something and, if it is
a query, that the key condition fixes the partition key. A batch goes through its tables in the order of their names; of
what a batch is told to leave undone, each table hands back as much as it can from its end.
-/

namespace RecordStore

/-- A store in memory. -/
structure MemoryStore where
  tables : Fields Table := []
  faults : Faults := {}
deriving Repr

namespace MemoryStore

/-- A call on a store in memory. -/
abbrev Action (α : Type) := Call MemoryStore StoreError α

/-- The most keys of a batch get. -/
def maxBatchGet : Nat := 100

/-- The most entries of a batch write. -/
def maxBatchWrite : Nat := 25

/-! ## Errors -/

/-- A request that the store cannot make sense of. -/
def invalid (message : String) : StoreError := ⟨.invalid, message, none⟩

/-- The error of an expression in a request. -/
def ofExprError (e : ExprError) : StoreError := invalid ("Invalid expression: " ++ e.message)

/-- The error of a table. -/
def ofTableError (e : TableError) : StoreError := invalid e.message

/-- The outcome of something that an expression does. -/
def ofExpr {α : Type} (r : Except ExprError α) : Except StoreError α := r.mapError ofExprError

/-- The outcome of something that a table does. -/
def ofTable {α : Type} (r : Except TableError α) : Except StoreError α := r.mapError ofTableError

/-! ## Tables -/

/-- The table of a name. -/
def table? (s : MemoryStore) (name : String) : Except StoreError Table :=
  match s.tables.find name with
  | some t => .ok t
  | none => .error ⟨.notFound, "Table not found: " ++ name, none⟩

/-- The store with a table set. -/
def setTable (s : MemoryStore) (name : String) (t : Table) : MemoryStore :=
  { s with tables := Fields.put name t s.tables }

/-- Adds an empty table. -/
def addTable (s : MemoryStore) (shape : TableShape) : Except StoreError MemoryStore :=
  if ¬ (shape.indexes.map (·.name)).Nodup then .error (invalid "Duplicate index name")
  else if s.tables.has shape.name then .error (invalid ("Table already exists: " ++ shape.name))
  else .ok (s.setTable shape.name (.empty shape))

/-- Puts an item into a table without a call. -/
def insert (s : MemoryStore) (name : String) (item : Item) : Except StoreError MemoryStore := do
  let t ← s.table? name
  let (_, t) ← ofTable (t.put item)
  .ok (s.setTable name t)

/-- How many items a table has; one that is not there has none. -/
def tableSize (s : MemoryStore) (name : String) : Nat :=
  match s.tables.find name with
  | some t => t.count
  | none => 0

/-! ## Calls -/

/-- Counts a call, which may fail by plan. -/
def record (operation : Operation) : Action Unit := fun s =>
  match s.faults.note operation with
  | (r, faults) => (r, { s with faults })

/-- How many entries of a batch are to be left undone. -/
def takeUndone (operation : Operation) : Action Nat := fun s =>
  match s.faults.takeUndone operation with
  | (n, faults) => (.ok n, { s with faults })

/-- An answer that depends on the store and leaves it as it is. -/
def ask {α : Type} (answer : MemoryStore → Except StoreError α) : Action α := fun s =>
  (answer s, s)

/-- Changes a table. -/
def change {α : Type} (name : String) (f : Table → Except TableError (α × Table)) : Action α := fun s =>
  match s.table? name with
  | .error e => (.error e, s)
  | .ok t =>
    match ofTable (f t) with
    | .error e => (.error e, s)
    | .ok (a, t) => (.ok a, s.setTable name t)

/-! ## Reads -/

/-- Reads an expression that may be absent. -/
def parseOptional {α : Type} (parse : String → Except ExprError α) : Option String → Except StoreError (Option α)
  | none => .ok none
  | some s => some <$> ofExpr (parse s)

/-- Checks the aliases of an expression that may be absent. -/
def checkOptional (r : ScanRequest) : Option Expr → Except StoreError Unit
  | none => .ok ()
  | some e => ofExpr (e.check r.names r.values)

/-- Checks the key condition of a query on a table or index with a key. -/
def checkKeyCondition (names : Fields String) (key : KeyShape) : Option Expr → Except StoreError Unit
  | none => .error (invalid "Query requires a KeyConditionExpression")
  | some e =>
    if e.pins names key.partition.name then .ok ()
    else .error (invalid ("Query condition missed key schema element: " ++ key.partition.name))

/-- The limit of a request. -/
def checkLimit : Option Int → Except StoreError (Option Nat)
  | none => .ok none
  | some n => if n ≤ 0 then .error (invalid "Limit must be greater than 0") else .ok (some n.toNat)

/-- The index that a request reads. -/
def findIndex (shape : TableShape) : Option String → Except StoreError (Option IndexShape)
  | none => .ok none
  | some name =>
    match shape.index? name with
    | some index => .ok (some index)
    | none => .error (invalid ("The table does not have the specified index: " ++ name))

/--
What a request asks to read of a table. A query has a place for a key condition, which it must fill; a scan has none.
-/
def tableRead (s : MemoryStore) (t : Table) (r : ScanRequest) (keyCondition : Option (Option String)) (forward : Bool) :
    Except StoreError TableRead := do
  let index ← findIndex t.shape r.index
  let key ← parseOptional Expr.parse keyCondition.join
  let filter ← parseOptional Expr.parse r.filter
  let projection ← parseOptional Path.parseList r.projection
  checkOptional r key
  checkOptional r filter
  if keyCondition.isSome then
    checkKeyCondition r.names (match index with | some i => i.key | none => t.shape.key) key
  let limit ← checkLimit r.limit
  .ok { index, keyCondition := key, filter, projection, names := r.names, values := r.values, forward,
        limit := s.faults.limit limit, after := r.after }

/-- Answers a read. -/
def read (s : MemoryStore) (r : ScanRequest) (keyCondition : Option (Option String)) (forward : Bool) :
    Except StoreError ReadResponse := do
  let t ← s.table? r.table
  let what ← s.tableRead t r keyCondition forward
  let result ← ofTable (t.read what)
  .ok ⟨result.items, Numeral.saturate32 result.items.length, Numeral.saturate32 result.scanned, result.lastKey⟩

/-! ## Operations -/

/-- Answers a query, upwards unless it says otherwise. -/
def query (r : QueryRequest) : Action ReadResponse := do
  record .query
  ask fun s => s.read r.toScanRequest (some r.keyCondition) (r.forward.getD true)

/-- Answers a scan. -/
def scan (r : ScanRequest) : Action ReadResponse := do
  record .scan
  ask fun s => s.read r none true

/-- Puts an item; the item that was there is not returned. -/
def put (r : PutRequest) : Action WriteResponse := do
  record .putItem
  let _ ← change r.table (·.put r.item)
  return {}

/-- What is returned of an item. -/
def projected (names : Fields String) (projection : Option (List Path)) (item : Item) : Item :=
  match projection with
  | some paths => Scope.project ⟨item, names, []⟩ paths
  | none => item

/-- Answers a get; a projection that cannot be read comes before a table that is not there. -/
def get (r : GetRequest) : Action GetResponse := do
  record .getItem
  ask fun s => do
    let projection ← parseOptional Path.parseList r.projection
    let t ← s.table? r.table
    let item ← ofTable (t.get r.key)
    .ok { item := item.map (projected r.names projection) }

/-- Takes an item away; it is not returned. -/
def delete (r : DeleteRequest) : Action WriteResponse := do
  record .deleteItem
  let _ ← change r.table (·.delete r.key)
  return {}

/-! ### Batches -/

/-- How many entries all tables of a batch have. -/
def batchSize {α : Type} (size : α → Nat) : Fields α → Nat
  | [] => 0
  | (_, entries) :: rest => size entries + batchSize size rest

/-- Checks the number of entries of a batch. -/
def checkBatch (operation : Operation) (entries : String) (most size : Nat) : Except StoreError Unit :=
  if size = 0 ∨ most < size then
    .error (invalid (operation.name ++ " takes 1 to " ++ toString most ++ " " ++ entries ++ ", got " ++ toString size))
  else .ok ()

/-- The items with some keys, those that are there. -/
def getAll (t : Table) (b : KeyBatch) (projection : Option (List Path)) (keys : List Key) :
    Except StoreError (List Item) := do
  let found ← keys.mapM fun key => ofTable (t.get key)
  .ok (found.filterMap fun item => item.map (projected b.names projection))

/-- Answers a batch get, table by table; `undone` keys are left to do. -/
def getTables (s : MemoryStore) : Nat → Fields KeyBatch → Except StoreError BatchGetResponse
  | _, [] => .ok ⟨[], []⟩
  | undone, (name, b) :: rest => do
    let t ← s.table? name
    let projection ← parseOptional Path.parseList b.projection
    let done := b.keys.length - min undone b.keys.length
    let items ← getAll t b projection (b.keys.take done)
    let left := b.keys.drop done
    let more ← s.getTables (undone - left.length) rest
    .ok ⟨(name, items) :: more.items,
      if left.isEmpty then more.unprocessed else (name, { b with keys := left }) :: more.unprocessed⟩

/-- Answers a batch get, which takes up what is planned to be left undone. -/
def batchGet (r : BatchGetRequest) : Action BatchGetResponse := do
  record .batchGetItem
  ask fun _ => checkBatch .batchGetItem "keys" maxBatchGet (batchSize (·.keys.length) r.tables)
  let undone ← takeUndone .batchGetItem
  ask fun s => s.getTables undone r.tables

/-- Does one write among many. An entry with neither side does nothing. -/
def writeEntry (name : String) (e : WriteEntry) : Action Unit :=
  match e.put, e.delete with
  | some item, _ => do
    let _ ← change name (·.put item)
  | none, some key => do
    let _ ← change name (·.delete key)
  | none, none => pure ()

/-- Does writes one after the other. -/
def writeEntries (name : String) : List WriteEntry → Action Unit
  | [] => pure ()
  | e :: rest => do
    writeEntry name e
    writeEntries name rest

/-- Does a batch write, table by table; `undone` entries are left to do. -/
def writeTables : Nat → Fields (List WriteEntry) → Action BatchWriteResponse
  | _, [] => pure {}
  | undone, (name, entries) :: rest => do
    ask fun s => (s.table? name).map fun _ => ()
    let done := entries.length - min undone entries.length
    writeEntries name (entries.take done)
    let left := entries.drop done
    let more ← writeTables (undone - left.length) rest
    return { unprocessed := if left.isEmpty then more.unprocessed else (name, left) :: more.unprocessed }

/-- Answers a batch write, which takes up what is planned to be left undone. -/
def batchWrite (r : BatchWriteRequest) : Action BatchWriteResponse := do
  record .batchWriteItem
  ask fun _ => checkBatch .batchWriteItem "requests" maxBatchWrite (batchSize (·.length) r.tables)
  let undone ← takeUndone .batchWriteItem
  writeTables undone r.tables

/-- How many items all tables have. -/
def totalCount (s : MemoryStore) : Nat :=
  batchSize (·.count) s.tables

instance : Store MemoryStore where
  query := query
  scan := scan
  put := put
  get := get
  delete := delete
  batchGet := batchGet
  batchWrite := batchWrite
  readBound s := s.totalCount + 1

end MemoryStore

end RecordStore
