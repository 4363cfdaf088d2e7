import RecordStore.Collection.Basic

/-!
# Finding records

Records are found by a condition on the keys of the table or of an index and a filter, or by a filter alone, and read
page by page. A page of some fields only still needs the key fields, to know where the next page starts: they are read
along and hidden from the caller.
-/

namespace RecordStore

/-- What to find by the keys of the table. -/
structure KeyQuery where
  partition : String
  sort : Option Definition := none
  filter : Option Definition := none
  fields : Option (List String) := none
  paging : Paging := {}

/-- What to find by the keys of an index. -/
structure IndexQuery where
  index : String
  partitionField : String
  partition : Json
  sort : Option Definition := none
  filter : Option Definition := none
  fields : Option (List String) := none
  paging : Paging := {}

/-- What to find by a filter alone. -/
structure FilterQuery where
  filter : Option Definition := none
  fields : Option (List String) := none
  paging : Paging := {}

/-- A page of records, and the cursor to the next. -/
structure PageOfRecords where
  items : List Record
  nextCursor : Option String
deriving DecidableEq

namespace Collection

variable {σ : Type} [Store σ]

/-- The leaves of a condition on the sort key, which may ask something of that key only, and must. -/
def sortConditions (d : Definition) (field : String) : Except AccessError (List Leaf) :=
  if !d.allOf.isEmpty || !d.anyOf.isEmpty || d.leaves.isEmpty || d.leaves.any fun leaf => leaf.field ≠ field then
    .error (.misuse .sortCondition)
  else .ok d.leaves

/-- The definition of a condition on keys: that on the sort key, if there is one, and the value of the partition key. -/
def keyDefinition (sort : Option Definition) (sortField partitionField : String) (partition : Json) :
    Except AccessError Definition := do
  let leaves ← match sort with
    | some d => sortConditions d sortField
    | none => .ok []
  .ok { leaves := leaves ++ [.equals partitionField partition] }

/-- The fields to read, and those of them to hide. No fields stand for all. -/
def pagedFields (fields : Option (List String)) (keyFields : List String) (paging : Paging) :
    List String × List String :=
  match fields.getD [] with
  | [] => ([], [])
  | fields =>
    let hidden :=
      if (CapBounds.positive? paging.pageSize).isSome then
        keyFields.eraseDups.filter fun name => !fields.contains name
      else []
    (fields ++ hidden, hidden)

/-- The fields that an index carries, if not all. -/
def carriedBy (i : EntityIndex) (keyFields : List String) : Option (List String) :=
  match i.carries with
  | .all => none
  | .keysOnly => some keyFields
  | .fields names => some (keyFields ++ names)

/-- The key fields of an item that an index has: those of the table, and those of the index that are not among them. -/
def indexKeyFields (e : Entity) (i : EntityIndex) : List String :=
  [i.partitionField, i.sortField].foldl (fun fields name => if fields.contains name then fields else fields ++ [name])
    e.keyFields

/-- Compiles a filter; one that asks nothing is none. -/
def filterOf (c : Collection) (filter : Option Definition) : Compile Compiled :=
  match filter.filter fun d => !d.isEmpty with
  | some d => Compile.definition c.settings.refuseUnknown d []
  | none => return {}

/-- Compiles a condition on keys and a filter for one request. -/
def expressionsOf (c : Collection) (key : Definition) (filter : Option Definition) (fields : List String) :
    Compile Expressions := do
  let key ← Compile.keyCondition c.settings.refuseUnknown key fields
  let filter ← c.filterOf filter
  return (Expressions.ofKeyCondition key).addFilter filter

/-- An item as a record without some fields. -/
def visible (hidden : List String) (item : Item) : Record :=
  hidden.foldl (fun record name => record.remove name) (Item.toRecord item)

/-- Reads a page of records. -/
def recordsOf (c : Collection) (what : Selection) (paging : Paging) (hidden : List String) :
    Call σ AccessError PageOfRecords := do
  let page ← Page.read c.settings what paging
  return ⟨page.items.map (visible hidden), page.nextCursor⟩

/-- All at once: what a caller says about pages does not count. -/
def unpaged (paging : Paging) : Paging :=
  { paging with pageSize := none, cursor := none }

/-! ## By the keys of the table -/

/-- What to read for a query by the keys of the table, and which fields to hide. -/
def selectByKey (c : Collection) (suffix : String) (q : KeyQuery) : Except AccessError (Selection × List String) := do
  if Text.isBlankText q.partition then .error (.misuse .partitionValue) else
  let e := c.entity
  let key ← keyDefinition q.sort e.sortField e.partitionField (.string q.partition)
  let (fields, hidden) := pagedFields q.fields e.keyFields q.paging
  let expressions ← compile suffix (c.expressionsOf key q.filter fields)
  .ok ({ table := e.table, kind := .query, expressions, keyFields := e.keyFields }, hidden)

/-- A page of the records that a query by the keys of the table finds. -/
def query (c : Collection) (suffix : String) (q : KeyQuery) : Call σ AccessError PageOfRecords := do
  let (what, hidden) ← Call.ofExcept (c.selectByKey suffix q)
  c.recordsOf what q.paging hidden

/-- All records that a query by the keys of the table finds. -/
def queryAll (c : Collection) (suffix : String) (q : KeyQuery) : Call σ AccessError (List Record) := do
  return (← c.query suffix { q with paging := unpaged q.paging }).items

/-! ## By the keys of an index -/

/-- What to read for a query by the keys of an index, and which fields to hide. -/
def selectByIndex (c : Collection) (suffix : String) (q : IndexQuery) :
    Except AccessError (Selection × List String) := do
  let e := c.entity
  let index ← EntityIndex.find e.indexes q.index q.partitionField
  if q.partition = .null then .error (.misuse .partitionValue) else
  let key ← keyDefinition q.sort index.sortField index.partitionField q.partition
  let keyFields := indexKeyFields e index
  let (fields, hidden) := pagedFields (q.fields <|> carriedBy index keyFields) keyFields q.paging
  let expressions ← compile suffix (c.expressionsOf key q.filter fields)
  .ok ({ table := e.table, index := some index.name, kind := .query, expressions, keyFields }, hidden)

/-- A page of the records that a query by the keys of an index finds. -/
def indexQuery (c : Collection) (suffix : String) (q : IndexQuery) : Call σ AccessError PageOfRecords := do
  let (what, hidden) ← Call.ofExcept (c.selectByIndex suffix q)
  c.recordsOf what q.paging hidden

/-- All records that a query by the keys of an index finds. -/
def indexQueryAll (c : Collection) (suffix : String) (q : IndexQuery) : Call σ AccessError (List Record) := do
  return (← c.indexQuery suffix { q with paging := unpaged q.paging }).items

/-! ## By a filter alone -/

/-- What to read for a filter alone, and which fields to hide. -/
def selectByFilter (c : Collection) (suffix : String) (q : FilterQuery) :
    Except AccessError (Selection × List String) := do
  let e := c.entity
  let definition := (q.filter.getD {}).equals e.partitionField (.string e.partitionValue)
  let (fields, hidden) := pagedFields q.fields e.keyFields q.paging
  let filter ← compile suffix (Compile.definition c.settings.refuseUnknown definition fields)
  .ok ({ table := e.table, kind := .scan, expressions := .ofFilter filter, keyFields := e.keyFields }, hidden)

/-- A page of the records that a filter lets through. -/
def scan (c : Collection) (suffix : String) (q : FilterQuery) : Call σ AccessError PageOfRecords := do
  let (what, hidden) ← Call.ofExcept (c.selectByFilter suffix q)
  c.recordsOf what q.paging hidden

end Collection

end RecordStore
