import RecordStore.Proofs.Wire.Message
import RecordStore.Wire.Store

/-!
# Requests and responses read back

**`Wire.messages_read_back`**: every request, every response and every part of one is read from what it is sent as. A
value is in normal form (`Item.Normal`, `QueryRequest.Normal`, ...) if its maps have their names in ascending order,
which is how a map is kept, and its numbers fit 32 bits, which they have on the wire; nothing else is asked of it. There
is one lemma for each type, put together of the fields in the order of its form.
-/

namespace RecordStore

open Wire

/-! ## Parts -/

namespace Item

variable {item : Item}

/-- Every map in an item, and the item itself, has its names in ascending order. -/
def Normal (item : Item) : Prop := (Attribute.map item).Ordered

theorem Normal.survives (h : item.Normal) : Survives toWire ofWire item := by
  rw [Normal, Attribute.Ordered] at h
  have hnames : ((Attribute.fieldsToWire item).map (·.1)).Pairwise (· < ·) :=
    Attribute.names_fieldsToWire item ▸ List.pairwise_map.2 h.1
  refine ⟨?_, nofun, Attribute.ofFields_toWire h.2⟩
  rw [toWire, Json.Ordered]
  exact ⟨List.pairwise_map.1 hnames, Attribute.orderedFields_toWire h.2⟩

/-- An item that is left out if it is empty. -/
theorem Normal.holds {name : String} (h : item.Normal) :
    Holds [(name, toWire? item)] (defaulted name ofWire []) item :=
  .unlessEmpty h.survives

/-- Many items are sent as an array. -/
theorem survives_listToWire {items : List Item} (h : ∀ item ∈ items, Normal item) :
    Survives listToWire (list ofWire) items :=
  survives_list fun item hitem => (h item hitem).survives

end Item

/-- Aliases of names that are left out if there are none. -/
theorem NameAliases.holds {names : NameAliases} {name : String} (h : names.Ordered) :
    Holds [(name, names.toWire?)] (defaulted name (map string) []) names :=
  .unlessEmpty (survives_map h fun entry _ => survives_string entry.2)

section Optional

variable {name : String}

theorem holds_string? (o : Option String) : Holds [(name, o.map .string)] (optional name string) o :=
  .optional fun s _ => survives_string s

theorem holds_bool? (o : Option Bool) : Holds [(name, o.map .bool)] (optional name bool) o :=
  .optional fun b _ => survives_bool b

theorem holds_item? {o : Option Item} (h : ∀ item ∈ o, item.Normal) :
    Holds [(name, o.map Item.toWire)] (optional name Item.ofWire) o :=
  .optional fun item hitem => (h item hitem).survives

end Optional

/-! ## Requests -/

namespace PutRequest

variable {r : PutRequest}

/-- The item of a put is in normal form. -/
structure Normal (r : PutRequest) : Prop where
  item : r.item.Normal

theorem Normal.survives (h : r.Normal) : Survives toWire ofWire r :=
  survives_message (by simp) rfl
    ((Holds.required (survives_string r.table)).map PutRequest.mk |>.seq (.required h.item.survives))

end PutRequest

namespace GetRequest

variable {r : GetRequest}

/-- The maps of a get are in normal form. -/
structure Normal (r : GetRequest) : Prop where
  key : r.key.Normal
  names : r.names.Ordered

theorem Normal.survives (h : r.Normal) : Survives toWire ofWire r :=
  survives_message (by simp) rfl
    ((Holds.required (survives_string r.table)).map GetRequest.mk |>.seq (.required h.key.survives)
      |>.seq (holds_bool? r.consistent) |>.seq (holds_string? r.projection) |>.seq (NameAliases.holds h.names))

end GetRequest

namespace DeleteRequest

variable {r : DeleteRequest}

/-- The key of a delete is in normal form. -/
structure Normal (r : DeleteRequest) : Prop where
  key : r.key.Normal

theorem Normal.survives (h : r.Normal) : Survives toWire ofWire r :=
  survives_message (by simp) rfl
    ((Holds.required (survives_string r.table)).map DeleteRequest.mk |>.seq (.required h.key.survives))

end DeleteRequest

namespace ScanRequest

variable {r : ScanRequest}

/-- The maps of a read are in normal form, and its limit fits 32 bits. -/
structure Normal (r : ScanRequest) : Prop where
  names : r.names.Ordered
  values : Item.Normal r.values
  limit : ∀ n ∈ r.limit, Fits32 n
  after : r.after.Normal

/-- The limit of a read. -/
theorem Normal.holds_limit (h : r.Normal) :
    Holds [("Limit", r.limit.map fun n => .number (.whole n))] (optional "Limit" int32) r.limit :=
  .optional fun n hn => survives_int32 (h.limit n hn)

theorem Normal.survives (h : r.Normal) : Survives toWire ofWire r :=
  survives_message (by simp [wireFields]) rfl
    ((Holds.required (survives_string r.table)).map ScanRequest.mk |>.seq (holds_string? r.index)
      |>.seq (holds_string? r.filter) |>.seq (holds_string? r.projection) |>.seq (NameAliases.holds h.names)
      |>.seq h.values.holds |>.seq h.holds_limit |>.seq h.after.holds |>.seq (holds_bool? r.consistent))

end ScanRequest

namespace QueryRequest

variable {r : QueryRequest}

/-- The maps of a query are in normal form, and its limit fits 32 bits. -/
def Normal (r : QueryRequest) : Prop := r.toScanRequest.Normal

theorem Normal.survives (h : r.Normal) : Survives toWire ofWire r := by
  have h : r.toScanRequest.Normal := h
  refine survives_message (by simp [ScanRequest.wireFields]) rfl <| Holds.reorder
    ((Holds.required (survives_string r.table)).map ofFields |>.seq (holds_string? r.index)
      |>.seq (holds_string? r.keyCondition) |>.seq (holds_string? r.filter) |>.seq (holds_string? r.projection)
      |>.seq (NameAliases.holds h.names) |>.seq h.values.holds |>.seq (holds_bool? r.forward) |>.seq h.holds_limit
      |>.seq h.after.holds |>.seq (holds_bool? r.consistent)) fun field => ?_
  -- a query is written as a scan with two more fields at the end, and read with each at its place
  simp only [ScanRequest.wireFields, List.cons_append, List.nil_append, List.mem_cons, List.not_mem_nil, or_false]
  exact iff_of_eq (by ac_rfl)

end QueryRequest

namespace KeyBatch

variable {b : KeyBatch}

/-- The maps of the keys of one table are in normal form. -/
structure Normal (b : KeyBatch) : Prop where
  keys : ∀ key ∈ b.keys, Item.Normal key
  names : b.names.Ordered

theorem Normal.survives (h : b.Normal) : Survives toWire ofWire b :=
  survives_message (by simp) rfl
    ((Holds.required (Item.survives_listToWire h.keys)).map KeyBatch.mk |>.seq (holds_string? b.projection)
      |>.seq (NameAliases.holds h.names) |>.seq (holds_bool? b.consistent))

end KeyBatch

namespace BatchGetRequest

variable {r : BatchGetRequest}

/-- The maps of a batch get are in normal form. -/
structure Normal (r : BatchGetRequest) : Prop where
  names : r.tables.Ordered
  tables : ∀ table ∈ r.tables, table.2.Normal

theorem Normal.survives (h : r.Normal) : Survives toWire ofWire r :=
  survives_message (by simp) rfl
    ((Holds.required (survives_map h.names fun table htable => (h.tables table htable).survives)).map
      BatchGetRequest.mk)

end BatchGetRequest

namespace WriteEntry

variable {e : WriteEntry}

/-- The item and the key of a write are in normal form, if they are there. -/
structure Normal (e : WriteEntry) : Prop where
  put : ∀ item ∈ e.put, item.Normal
  delete : ∀ key ∈ e.delete, key.Normal

/-- A side of a write is a message with one field. -/
theorem survives_side {item : Item} (name : String) (h : item.Normal) :
    Survives (fun item => message [(name, some (Item.toWire item))]) (sideOfWire name) item :=
  survives_message (by simp) rfl (.required h.survives)

theorem Normal.survives (h : e.Normal) : Survives toWire ofWire e :=
  survives_message (by simp) rfl
    ((Holds.optional fun item hitem => survives_side "Item" (h.put item hitem)).map WriteEntry.mk
      |>.seq (.optional fun key hkey => survives_side "Key" (h.delete key hkey)))

/-- Many writes are sent as an array. -/
theorem survives_listToWire {entries : List WriteEntry} (h : ∀ e ∈ entries, Normal e) :
    Survives listToWire (list ofWire) entries :=
  survives_list fun e he => (h e he).survives

end WriteEntry

namespace BatchWriteRequest

variable {r : BatchWriteRequest}

/-- The maps of a batch write are in normal form. -/
structure Normal (r : BatchWriteRequest) : Prop where
  names : r.tables.Ordered
  tables : ∀ table ∈ r.tables, ∀ e ∈ table.2, e.Normal

theorem Normal.survives (h : r.Normal) : Survives toWire ofWire r :=
  survives_message (by simp) rfl
    ((Holds.required (survives_map h.names fun table htable =>
      WriteEntry.survives_listToWire (h.tables table htable))).map BatchWriteRequest.mk)

end BatchWriteRequest

/-! ## Responses -/

namespace WriteResponse

variable {r : WriteResponse}

/-- The item of the answer to a put or delete is in normal form, if it is there. -/
structure Normal (r : WriteResponse) : Prop where
  replaced : ∀ item ∈ r.replaced, item.Normal

theorem Normal.survives (h : r.Normal) : Survives toWire ofWire r :=
  survives_message (by simp) rfl ((holds_item? h.replaced).map WriteResponse.mk)

end WriteResponse

namespace GetResponse

variable {r : GetResponse}

/-- The item of the answer to a get is in normal form, if it is there. -/
structure Normal (r : GetResponse) : Prop where
  item : ∀ item ∈ r.item, item.Normal

theorem Normal.survives (h : r.Normal) : Survives toWire ofWire r :=
  survives_message (by simp) rfl ((holds_item? h.item).map GetResponse.mk)

end GetResponse

namespace ReadResponse

variable {r : ReadResponse}

/-- The maps of the answer to a read are in normal form, and its counts fit 32 bits. -/
structure Normal (r : ReadResponse) : Prop where
  items : ∀ item ∈ r.items, item.Normal
  count : Fits32 r.count
  scanned : Fits32 r.scanned
  lastKey : ∀ key ∈ r.lastKey, key.Normal

theorem Normal.survives (h : r.Normal) : Survives toWire ofWire r :=
  survives_message (by simp) rfl
    ((Holds.defaulted (Item.survives_listToWire h.items)).map ReadResponse.mk
      |>.seq (.required (survives_int32 h.count)) |>.seq (.required (survives_int32 h.scanned))
      |>.seq (holds_item? h.lastKey))

end ReadResponse

namespace BatchGetResponse

variable {r : BatchGetResponse}

/-- The maps of the answer to a batch get are in normal form. -/
structure Normal (r : BatchGetResponse) : Prop where
  names : r.items.Ordered
  items : ∀ table ∈ r.items, ∀ item ∈ table.2, item.Normal
  unprocessedNames : r.unprocessed.Ordered
  unprocessed : ∀ table ∈ r.unprocessed, table.2.Normal

theorem Normal.survives (h : r.Normal) : Survives toWire ofWire r :=
  survives_message (by simp) rfl
    ((Holds.defaulted (survives_map h.names fun table htable =>
        Item.survives_listToWire (h.items table htable))).map BatchGetResponse.mk
      |>.seq (.unlessEmpty (survives_map h.unprocessedNames fun table htable => (h.unprocessed table htable).survives)))

end BatchGetResponse

namespace BatchWriteResponse

variable {r : BatchWriteResponse}

/-- The maps of the answer to a batch write are in normal form. -/
structure Normal (r : BatchWriteResponse) : Prop where
  names : r.unprocessed.Ordered
  unprocessed : ∀ table ∈ r.unprocessed, ∀ e ∈ table.2, e.Normal

theorem Normal.survives (h : r.Normal) : Survives toWire ofWire r :=
  survives_message (by simp) rfl
    ((Holds.unlessEmpty (survives_map h.names fun table htable =>
      WriteEntry.survives_listToWire (h.unprocessed table htable))).map BatchWriteResponse.mk)

end BatchWriteResponse

/-! ## All of them -/

namespace Wire

/--
**Every request, response and part of one** is read from what it is sent as, whichever of its options are absent and
whichever of its maps and lists are empty: what it is sent as is a document in normal form, and reading that gives it
back.
-/
theorem messages_read_back :
    (∀ r : PutRequest, r.Normal → Survives PutRequest.toWire PutRequest.ofWire r) ∧
    (∀ r : GetRequest, r.Normal → Survives GetRequest.toWire GetRequest.ofWire r) ∧
    (∀ r : DeleteRequest, r.Normal → Survives DeleteRequest.toWire DeleteRequest.ofWire r) ∧
    (∀ r : QueryRequest, r.Normal → Survives QueryRequest.toWire QueryRequest.ofWire r) ∧
    (∀ r : ScanRequest, r.Normal → Survives ScanRequest.toWire ScanRequest.ofWire r) ∧
    (∀ r : BatchGetRequest, r.Normal → Survives BatchGetRequest.toWire BatchGetRequest.ofWire r) ∧
    (∀ r : BatchWriteRequest, r.Normal → Survives BatchWriteRequest.toWire BatchWriteRequest.ofWire r) ∧
    (∀ b : KeyBatch, b.Normal → Survives KeyBatch.toWire KeyBatch.ofWire b) ∧
    (∀ e : WriteEntry, e.Normal → Survives WriteEntry.toWire WriteEntry.ofWire e) ∧
    (∀ r : WriteResponse, r.Normal → Survives WriteResponse.toWire WriteResponse.ofWire r) ∧
    (∀ r : GetResponse, r.Normal → Survives GetResponse.toWire GetResponse.ofWire r) ∧
    (∀ r : ReadResponse, r.Normal → Survives ReadResponse.toWire ReadResponse.ofWire r) ∧
    (∀ r : BatchGetResponse, r.Normal → Survives BatchGetResponse.toWire BatchGetResponse.ofWire r) ∧
    (∀ r : BatchWriteResponse, r.Normal → Survives BatchWriteResponse.toWire BatchWriteResponse.ofWire r) :=
  ⟨fun _ h => h.survives, fun _ h => h.survives, fun _ h => h.survives, fun _ h => QueryRequest.Normal.survives h,
    fun _ h => h.survives, fun _ h => h.survives, fun _ h => h.survives, fun _ h => h.survives, fun _ h => h.survives,
    fun _ h => h.survives, fun _ h => h.survives, fun _ h => h.survives, fun _ h => h.survives, fun _ h => h.survives⟩

/-- An answer with a table of which nothing was found, an item that nests a null in a list in a map, and keys left over
that ask for an inconsistent read and use no aliases; and a downward query without a key to start after. -/
theorem messages_read_back_rare :
    let answer : BatchGetResponse :=
      { items := [("empty", []), ("t", [[("k", .map [("l", .list [.null false, .binaries [[], [0]]])])]])]
        unprocessed := [("t", { keys := [[], [("id", .number "1.0")]], consistent := some false })] }
    let query : QueryRequest := { table := "", limit := some (-1), forward := some false, names := [("#n", "")] }
    (answer.Normal ∧ BatchGetResponse.ofWire answer.toWire = .ok answer) ∧
    (query.Normal ∧ QueryRequest.ofWire query.toWire = .ok query) := by
  intro answer query
  have hleft : KeyBatch.Normal { keys := [[], [("id", .number "1.0")]], consistent := some false } :=
    ⟨List.forall_mem_cons.2 ⟨⟨Fields.ordered_nil, trivial⟩,
      List.forall_mem_singleton.2 ⟨Fields.ordered_singleton _, trivial, trivial⟩⟩, Fields.ordered_nil⟩
  have hanswer : answer.Normal := by
    constructor
    case names => exact List.pairwise_pair.2 (by decide)
    case items => simp [answer, Item.Normal, Attribute.Ordered, Attribute.OrderedFields, Attribute.OrderedItems,
      Fields.Ordered]
    case unprocessedNames => exact Fields.ordered_singleton _
    case unprocessed => exact List.forall_mem_singleton.2 hleft
  have hquery : query.Normal := by
    constructor
    case names => exact Fields.ordered_singleton _
    case values => exact ⟨Fields.ordered_nil, trivial⟩
    case limit => exact fun n hn => Option.mem_some.1 hn ▸ ⟨by decide, by decide⟩
    case after => exact ⟨Fields.ordered_nil, trivial⟩
  obtain ⟨-, -, -, hqueries, -, -, -, -, -, -, -, -, hanswers, -⟩ := messages_read_back
  exact ⟨⟨hanswer, (hanswers answer hanswer).reads⟩, hquery, (hqueries query hquery).reads⟩

end Wire

end RecordStore
