import RecordStore.Table.Shape

/-!
# Tables

A table holds its items in partitions, one for each value of the partition key, and within a partition in the order of
their sort keys. An item replaces the one in its partition whose sort key compares equal to its own. No partition is
empty.

`put`, `get` and `delete` check keys first, and a call that is refused leaves the table as it is.
-/

namespace RecordStore

/-- The items of one partition, ascending by sort key. -/
abbrev Partition := List (Option SortKey × Item)

namespace Partition

/-- Whether two sort keys of one partition are the same key. -/
def same (a b : Option SortKey) : Bool :=
  Position.comparePart a b = .eq

/-- The item at a sort key. -/
def find (p : Partition) (sort : Option SortKey) : Option Item :=
  (p.find? fun entry => same entry.1 sort).map (·.2)

/-- The partition with an item at a sort key. An item there before gives way. -/
def insert (sort : Option SortKey) (item : Item) : Partition → Partition
  | [] => [(sort, item)]
  | (s, other) :: rest =>
    match Position.comparePart sort s with
    | .lt => (sort, item) :: (s, other) :: rest
    | .eq => (s, item) :: rest
    | .gt => (s, other) :: insert sort item rest

/-- The partition without the item at a sort key. -/
def erase (sort : Option SortKey) (p : Partition) : Partition :=
  p.filter fun entry => !same entry.1 sort

end Partition

/-- A table: its shape, and its partitions by the value of the partition key. -/
structure Table where
  shape : TableShape
  partitions : List (Attribute × Partition) := []
deriving DecidableEq, Repr

namespace Table

/-- A table without items. -/
def empty (shape : TableShape) : Table := ⟨shape, []⟩

/-- The partition of a value; one that is not there has no items. -/
def partition (t : Table) (value : Attribute) : Partition :=
  match t.partitions.find? fun entry => entry.1 = value with
  | some entry => entry.2
  | none => []

/-- Partitions with the one of a value set. -/
def setPartition (value : Attribute) (p : Partition) : List (Attribute × Partition) → List (Attribute × Partition)
  | [] => [(value, p)]
  | (v, q) :: rest => if v = value then (v, p) :: rest else (v, q) :: setPartition value p rest

/-- Partitions without the one of a value. -/
def dropPartition (value : Attribute) (partitions : List (Attribute × Partition)) : List (Attribute × Partition) :=
  partitions.filter fun entry => entry.1 ≠ value

/-- All items, partition by partition. -/
def items (t : Table) : List Item :=
  t.partitions.flatMap fun entry => entry.2.map (·.2)

/-- How many items there are. -/
def count (t : Table) : Nat :=
  t.items.length

/-- The partition and the sort key of an item or key. -/
def address (t : Table) (item : Item) : Except TableError (Attribute × Option SortKey) := do
  let partition ← t.shape.key.partition.value item
  match t.shape.key.sort with
  | none => .ok (partition, none)
  | some k => do
    let sort ← k.sortKey item
    .ok (partition, some sort)

/-- Checks the key attributes of the indexes, where an item has them. -/
def checkIndexes (t : Table) (item : Item) : Except TableError Unit :=
  (t.shape.indexes.flatMap fun index => index.key.attributes).forM fun k =>
    match item.find k.name with
    | some a => k.checkValue a
    | none => .ok ()

/-- Puts an item into the table: the item that it replaced, and the table after it. -/
def put (t : Table) (item : Item) : Except TableError (Option Item × Table) := do
  let (value, sort) ← t.address item
  t.checkIndexes item
  let p := t.partition value
  .ok (p.find sort, { t with partitions := setPartition value (p.insert sort item) t.partitions })

/-- The item with a key. -/
def get (t : Table) (key : Key) : Except TableError (Option Item) := do
  let (value, sort) ← t.address key
  .ok ((t.partition value).find sort)

/-- Takes the item with a key out of the table: the item, and the table after it. -/
def delete (t : Table) (key : Key) : Except TableError (Option Item × Table) := do
  let (value, sort) ← t.address key
  let p := t.partition value
  let rest := p.erase sort
  let partitions :=
    if rest.isEmpty then dropPartition value t.partitions else setPartition value rest t.partitions
  .ok (p.find sort, { t with partitions })

end Table

end RecordStore
