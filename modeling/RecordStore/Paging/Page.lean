import RecordStore.Cursor
import RecordStore.AccessError
import RecordStore.Paging.Cap
import RecordStore.Query.Compiler
import RecordStore.Store.Basic

/-!
# Pages

A page is filled by one read after the other, each from where the one before stopped, until it holds as many items as it
should or the store has no more. Then it has a cursor to the next page if there may be one. If a read fails after others
have not, the page is what was read so far, and its cursor leads to the read that failed.

`Page.read` reads a page. How many reads may follow on one another is bounded by what the store says; that bound is
never reached as long as the store keeps to it.
-/

namespace RecordStore

/-- The two operations that read pages. -/
inductive ReadKind where
  | query
  | scan
deriving DecidableEq, Repr

/-- What to read page by page. -/
structure Selection where
  table : String
  index : Option String := none
  kind : ReadKind := .query
  expressions : Expressions := {}
  /-- The fields that make up the key of an item, from which a page can go on. -/
  keyFields : List String := []
  consistent : Bool := false
deriving DecidableEq, Repr

/-- Which page to read. -/
structure Paging where
  /-- How many items a page holds; none and zero stand for all. -/
  pageSize : Option Nat := none
  cursor : Option String := none
  cap : Option Nat := none
  descending : Bool := false
deriving DecidableEq, Repr

/-- A page, and the cursor to the next. -/
structure Page where
  items : List Item
  nextCursor : Option String
deriving DecidableEq, Repr

namespace Page

/-- Whether there is no page after this one. -/
def isLast (p : Page) : Bool := p.nextCursor.isNone

/-- The key at which a page starts. A blank cursor is none, and so is a bad one unless such cursors are refused. -/
def start (settings : Settings) (cursor : Option String) : Except AccessError (Option Key) :=
  match cursor.filter fun token => !Text.isBlankText token with
  | none => .ok none
  | some token =>
    match Cursor.decode token with
    | .ok key => .ok (some key)
    | .error cause => if settings.refuseBadCursors then .error (.cursor cause) else .ok none

/-- The request for a part of a page. -/
def request (what : Selection) (cap : Option Nat) (start : Option Key) : ScanRequest :=
  { table := what.table
    index := what.index
    filter := what.expressions.filter
    projection := what.expressions.projection
    names := what.expressions.names
    values := what.expressions.values
    limit := cap.map Numeral.saturate32
    after := start.getD []
    consistent := if what.consistent then some true else none }

/-- The items of one read, and the key to go on after. -/
def ofResponse (r : ReadResponse) : List Item × Option Key :=
  (r.items, r.lastKey.filter fun key => !key.isEmpty)

section Reading

variable {σ : Type} [Store σ]

/-- Reads a part of a page. -/
def readPart (what : Selection) (descending : Bool) (cap : Option Nat) (start : Option Key) :
    Call σ StoreError (List Item × Option Key) :=
  match what.kind with
  | .query => ofResponse <$> Store.query
      { request what cap start with
        keyCondition := what.expressions.keyCondition
        forward := if descending then some false else none }
  | .scan => ofResponse <$> Store.scan (request what cap start)

/-- The key of an item that has all of some fields. -/
def keyFrom (fields : List String) (item : Item) : Option Key :=
  if fields.isEmpty then none
  else (fields.mapM fun field => (item.find field).map (field, ·)).map Fields.ofList

/-- The cursor to a key, if there is one. -/
def cursorTo (key : Option Key) : Option String :=
  key.bind Cursor.encode?

/-- A page that is full. It is cut where it should end if the last item on it has a key, and else it is as it came. -/
def full (what : Selection) (buffer : List Item) (size : Nat) (storeKey : Option Key) : Page :=
  let cut := if size < buffer.length then (buffer[size - 1]?).bind (keyFrom what.keyFields) else none
  match cut with
  | some key => ⟨buffer.take size, cursorTo (some key)⟩
  | none => ⟨buffer, cursorTo storeKey⟩

/-- Reads on from a key, with what was read before. At most `rounds` reads are made. -/
def rounds (what : Selection) (descending : Bool) (size cap : Option Nat) :
    Nat → List Item → Option Key → Call σ AccessError Page
  | 0, buffer, start => return ⟨buffer, cursorTo start⟩
  | n + 1, buffer, start => do
    match ← Call.attempt ((readPart what descending cap start).mapError .store) with
    | .error e =>
      if buffer.isEmpty then throw e else return ⟨buffer, cursorTo start⟩
    | .ok (items, last) =>
      let buffer := buffer ++ items
      match size.filter fun size => size ≤ buffer.length, last with
      | some size, _ => return full what buffer size last
      | none, some key => rounds what descending size cap n buffer (some key)
      | none, none => return ⟨buffer, none⟩

/-- Reads a page. -/
def read (settings : Settings) (what : Selection) (paging : Paging) : Call σ AccessError Page := do
  let start ← Call.ofExcept (start settings paging.cursor)
  let size := CapBounds.positive? paging.pageSize
  let cap := (CapBounds.ofSettings settings).cap size paging.cap
  let bound := Store.readBound (← get)
  rounds what paging.descending size cap bound [] start

end Reading

end Page

end RecordStore
