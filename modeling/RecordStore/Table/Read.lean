import RecordStore.Expression.Eval
import RecordStore.Table.Basic

/-!
# Reading a table

A read walks the items of a table, or those that an index has, in the order of their positions or against it. It begins
behind a start key, takes the items that meet the key condition, keeps those that also pass the filter, and stops once
it has looked at as many as its limit. Then, and only if another item that meets the key condition follows, it says
after which key to go on.
-/

namespace RecordStore

/-- What to read of a table. -/
structure TableRead where
  index : Option IndexShape := none
  keyCondition : Option Expr := none
  filter : Option Expr := none
  projection : Option (List Path) := none
  names : Fields String := []
  values : Fields Attribute := []
  /-- Whether to read in the order of positions, and not against it. -/
  forward : Bool := true
  limit : Option Nat := none
  /-- The key to start after; the empty key stands for the start. -/
  after : Key := []

/-- What was read. -/
structure ReadOutcome where
  items : List Item
  /-- How many items met the key condition. -/
  scanned : Nat
  lastKey : Option Key
deriving DecidableEq, Repr

namespace TableRead

/-- What an expression is read in for an item. -/
def scope (what : TableRead) (item : Item) : Scope :=
  ⟨item, what.names, what.values⟩

/-- Whether an item meets a condition; without a condition it does. -/
def meets (what : TableRead) (condition : Option Expr) (item : Item) : Except TableError Bool :=
  match condition with
  | none => .ok true
  | some e =>
    match e.eval (what.scope item) with
    | .ok b => .ok b
    | .error cause => .error (.expression cause)

/-- What is returned of an item. -/
def output (what : TableRead) (item : Item) : Item :=
  match what.projection with
  | some paths => (what.scope item).project paths
  | none => item

/-- Whether one of some items meets the key condition; they are looked at until one does. -/
def anyInRange (what : TableRead) : List Item → Except TableError Bool
  | [] => .ok false
  | item :: rest => do
    if ← what.meets what.keyCondition item then .ok true else what.anyInRange rest

/-- Whether a read that has looked at so many items must stop. -/
def isDone (what : TableRead) (scanned : Nat) : Bool :=
  match what.limit with
  | some limit => limit ≤ scanned
  | none => false

/-- Walks items, of which `scanned` were looked at before. -/
def walk (what : TableRead) (keyIn : Item → Key) : Nat → List Item → Except TableError ReadOutcome
  | scanned, [] => .ok ⟨[], scanned, none⟩
  | scanned, item :: rest => do
    if ← what.meets what.keyCondition item then
      let kept ← what.meets what.filter item
      let out := if kept then [what.output item] else []
      if what.isDone (scanned + 1) then
        let more ← what.anyInRange rest
        .ok ⟨out, scanned + 1, if more then some (keyIn item) else none⟩
      else
        let result ← walk what keyIn (scanned + 1) rest
        .ok { result with items := out ++ result.items }
    else walk what keyIn scanned rest

end TableRead

namespace Table

/-- The position of an item, which must have all the key attributes of a read order. -/
def place (readOrder : List (Option KeyField)) (item : Item) : Except TableError Position :=
  readOrder.mapM fun
    | none => .ok none
    | some k =>
      match k.sortKey item with
      | .ok key => .ok (some key)
      | .error cause => .error (.badStartKey cause)

/-- The key attributes of an item in a read order. -/
def keyIn (readOrder : List (Option KeyField)) (item : Item) : Key :=
  item.restrict (readOrder.filterMap fun k => k.map (·.name))

/-- The items that have a position, with it. -/
def positioned (t : Table) (readOrder : List (Option KeyField)) : List (Position × Item) :=
  t.items.filterMap fun item =>
    match place readOrder item with
    | .ok position => some (position, item)
    | .error _ => none

/-- The items that have a position, in the order of their positions or against it. -/
def ordered (t : Table) (readOrder : List (Option KeyField)) (forward : Bool) : List (Position × Item) :=
  let ascending := (t.positioned readOrder).mergeSort fun a b => Position.compare a.1 b.1 ≠ .gt
  if forward then ascending else ascending.reverse

/-- Whether a position lies beyond the one to start after. -/
def isBeyond (forward : Bool) (start position : Position) : Bool :=
  match Position.compare position start with
  | .gt => forward
  | .lt => !forward
  | .eq => false

/-- The position to start after, unless the key is empty. -/
def startPosition (readOrder : List (Option KeyField)) (after : Key) : Except TableError (Option Position) :=
  if after.isEmpty then .ok none else some <$> place readOrder after

/-- Reads the table. -/
def read (t : Table) (what : TableRead) : Except TableError ReadOutcome := do
  let readOrder := t.shape.readOrder what.index
  let start ← startPosition readOrder what.after
  let ahead := (t.ordered readOrder what.forward).filter fun entry =>
    match start with
    | some position => isBeyond what.forward position entry.1
    | none => true
  what.walk (keyIn readOrder) 0 (ahead.map (·.2))

end Table

end RecordStore
