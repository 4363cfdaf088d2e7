import RecordStore.Collection.Write
import RecordStore.Proofs.Attribute.Document
import RecordStore.Proofs.Memory.Writing
import RecordStore.Proofs.Table.Placing

/-!
# Saving records

The key fields of a record are set before it is checked and again after that, so it is put under its own id whatever the
check makes of it: **`Collection.save_ok`**. A record that is not saved leaves the tables as they are
(`Collection.allOrNothing_save`), and reading a record by its id finds what its table has there
(`Collection.get_found`).
-/

namespace RecordStore

/-! ## Records in normal form -/

/-- A record is in normal form, as every object is that was read from a text. -/
def Record.Normal (record : Record) : Prop :=
  (Json.object record).Ordered

theorem Json.ordered_string (s : String) : (Json.string s).Ordered := trivial

namespace Record

variable {record changes : Record} {name : String} {value : Json}

theorem normal_iff : record.Normal ↔ Fields.Ordered record ∧ ∀ field ∈ record, field.2.Ordered := by
  rw [Normal, Json.Ordered, Json.orderedFields_iff]

theorem Normal.find (h : record.Normal) (hf : record.find name = some value) : value.Ordered :=
  (normal_iff.1 h).2 (name, value) (Fields.mem_of_find hf)

theorem Normal.put (h : record.Normal) (hv : value.Ordered) : Record.Normal (Fields.put name value record) := by
  obtain ⟨ho, hf⟩ := normal_iff.1 h
  refine normal_iff.2 ⟨ho.put, ?_⟩
  intro field hmem
  rcases Fields.mem_put hmem with rfl | hmem
  · exact hv
  · exact hf field hmem

theorem Normal.merge {entries : List (String × Json)} (h : record.Normal)
    (he : ∀ entry ∈ entries, entry.2.Ordered) : Record.Normal (Fields.merge record entries) := by
  induction entries generalizing record with
  | nil => exact h
  | cons entry entries ih =>
    obtain ⟨hv, he⟩ := List.forall_mem_cons.1 he
    rw [Fields.merge_cons]
    exact ih (h.put hv) he

/-- Data in normal form is a record in normal form, if it is one. -/
theorem normal_ofJson {data : Json} (hd : data.Ordered) (h : Record.ofJson data = .ok record) : record.Normal := by
  cases data with
  | object fields =>
    cases h
    exact hd
  | _ => cases h

/-- **A record** in normal form comes back from its item. -/
theorem toRecord_toItem
    (h : record.Normal) : Item.toRecord (Record.toItem record) = record := by
  rw [Normal, Json.Ordered] at h
  exact Attribute.toJsonFields_ofJsonFields h.2

end Record

/-! ## The places of records -/

namespace Entity

/-- The names of the fields that are set for the caller: the key fields and the times. -/
def ownNames (e : Entity) : List String :=
  [e.partitionField, e.sortField, createdField, modifiedField]

variable {e : Entity} {t : Table} {id id' : String} {record : Record}

/-- The key of a table for records of an entity: two texts. -/
def keyShape (e : Entity) : KeyShape :=
  ⟨⟨e.partitionField, .text⟩, some ⟨e.sortField, .text⟩⟩

/-- Where in its table the record with an id is. -/
def address (e : Entity) (id : String) : Attribute × Option SortKey :=
  (.text e.partitionValue, some (.text id))

theorem sameAddress_iff : Table.SameAddress (e.address id) (e.address id') ↔ id = id' := by
  constructor
  · rintro ⟨-, h⟩
    exact SortKey.text_eq_of_compare h
  · rintro rfl
    exact ⟨rfl, (compareOfLessAndEq_eq_eq String.le_refl String.not_le).2 rfl⟩

/-- A record has the key fields of an id set. -/
def Stamped (e : Entity) (id : String) (record : Record) : Prop :=
  record.find e.partitionField = some (.string e.partitionValue) ∧ record.find e.sortField = some (.string id)

theorem stamped_stamp (hne : e.partitionField ≠ e.sortField) (id : String) (record : Record) :
    e.Stamped id (e.stamp id record) := by
  constructor
  · rw [stamp, Fields.find_put, if_neg (Ne.symm hne), Fields.find_put, if_pos rfl]
  · rw [stamp, Fields.find_put, if_pos rfl]

theorem normal_stamp (h : record.Normal) (id : String) : (e.stamp id record).Normal :=
  (h.put (Json.ordered_string _)).put (Json.ordered_string _)

/-- The address of an item with the key fields of an id. -/
theorem address_of_texts (hkey : t.shape.key = e.keyShape) {item : Item}
    (hp : item.find e.partitionField = some (.text e.partitionValue))
    (hs : item.find e.sortField = some (.text id)) : t.address item = .ok (e.address id) := by
  have hvalue : t.shape.key.partition.value item = .ok (.text e.partitionValue) := by
    rw [hkey]
    exact KeyField.value_ok.2 ⟨hp, rfl⟩
  have hsort : KeyField.sortKey ⟨e.sortField, .text⟩ item = .ok (.text id) :=
    KeyField.sortKey_ok.2 ⟨_, hs, rfl, rfl⟩
  apply Table.address_ok hvalue
  rw [hkey]
  show Table.part item (some ⟨e.sortField, .text⟩) = _
  simp only [Table.part, hsort]

theorem address_key (hne : e.partitionField ≠ e.sortField) (hkey : t.shape.key = e.keyShape) (id : String) :
    t.address (e.key id) = .ok (e.address id) := by
  have hnodup : ([(e.partitionField, Attribute.text e.partitionValue), (e.sortField, .text id)].map (·.1)).Nodup := by
    simp [hne]
  apply address_of_texts hkey
  · exact Fields.find_ofList_of_mem hnodup List.mem_cons_self
  · exact Fields.find_ofList_of_mem hnodup (List.mem_cons_of_mem _ List.mem_cons_self)

theorem Stamped.address (h : e.Stamped id record) (hkey : t.shape.key = e.keyShape) :
    t.address (Record.toItem record) = .ok (e.address id) := by
  apply address_of_texts hkey
  · rw [Record.toItem, Attribute.find_ofJsonFields, h.1]
    rfl
  · rw [Record.toItem, Attribute.find_ofJsonFields, h.2]
    rfl

end Entity

namespace Collection

open Call (Reads AllOrNothing)

variable {c : Collection} {s s' : MemoryStore} {t : Table} {id : String} {record stored : Record}

/-! ## Saving -/

/-- The check of a collection gives records in normal form for such records. -/
def KeepsNormal (c : Collection) : Prop :=
  ∀ record checked, Record.Normal record → c.check record = .ok checked → Record.Normal checked

theorem ofStore_eq {α : Type} (call : Call MemoryStore StoreError α) (s : MemoryStore) :
    ofStore call s = ((call s).1.mapError .store, (call s).2) := Call.mapError_eq _ _ _

/-- What the store has answered is its answer. -/
theorem ofStore_ok {α : Type} {call : Call MemoryStore StoreError α} {a : α} (h : ofStore call s = (.ok a, s')) :
    call s = (.ok a, s') := by
  rw [ofStore_eq] at h
  obtain ⟨hanswer, hstate⟩ := Prod.mk.inj h
  exact Prod.ext (mapError_eq_ok.1 hanswer) hstate

/-- What the collection sets in a record is what the record has. -/
theorem ownFields_agree (c : Collection) (record : Record) :
    ∀ entry ∈ c.ownFields record, record.find entry.1 = some entry.2 := by
  intro entry hmem
  obtain ⟨name, -, hentry⟩ := List.mem_filterMap.1 hmem
  obtain ⟨value, hvalue, rfl⟩ := Option.map_eq_some_iff.1 hentry
  exact hvalue

/-- What the collection sets in a record are those of its own fields that the record has. -/
theorem mem_ownFields_iff {name : String} {value : Json} (hf : record.find name = some value) :
    name ∈ (c.ownFields record).map (·.1) ↔ name ∈ c.entity.ownNames := by
  constructor
  · intro hname
    obtain ⟨entry, hentry, rfl⟩ := List.mem_map.1 hname
    obtain ⟨own, hown, hmap⟩ := List.mem_filterMap.1 hentry
    obtain ⟨_, -, rfl⟩ := Option.map_eq_some_iff.1 hmap
    exact hown
  · intro hown
    have hentry : (name, value) ∈ c.ownFields record := by
      apply List.mem_filterMap.2
      refine ⟨name, hown, ?_⟩
      rw [hf]
      rfl
    exact List.mem_map_of_mem hentry

/-- A field that a record has is stored as it is if the collection sets it, and else as the check has left it. -/
theorem find_stored {name : String} {value : Json} (hf : record.find name = some value) (checked : Record) :
    Fields.find (Fields.merge checked (c.ownFields record)) name =
      if name ∈ c.entity.ownNames then some value else checked.find name := by
  rw [Fields.find_merge_of_agree (c.ownFields_agree record), hf]
  simp only [mem_ownFields_iff hf]

/-- The key fields of a record are still set after its check. -/
theorem stamped_merge (h : c.entity.Stamped id record) (checked : Record) :
    c.entity.Stamped id (Fields.merge checked (c.ownFields record)) := by
  have hpartition : c.entity.partitionField ∈ c.entity.ownNames := List.mem_cons_self
  have hsort : c.entity.sortField ∈ c.entity.ownNames := List.mem_cons_of_mem _ List.mem_cons_self
  exact ⟨by rw [find_stored h.1, if_pos hpartition], by rw [find_stored h.2, if_pos hsort]⟩

/-- A record that cannot be saved leaves the tables as they are. -/
theorem allOrNothing_save (c : Collection) (record : Record) : AllOrNothing (c.save record) :=
  (Call.reads_ofExcept _).bind fun _ => ((MemoryStore.allOrNothing_put _).mapError _).bind_pure _

/-- A record that is saved has passed the check, and what is left of it has been put with what the collection sets. -/
theorem save_put (h : c.save record s = (.ok stored, s')) :
    ∃ checked, c.check record = .ok checked ∧ stored = Fields.merge checked (c.ownFields record) ∧
      ∃ t old t', s.tables.find c.entity.table = some t ∧ t.put (Record.toItem stored) = .ok (old, t') ∧
        s'.tables = Fields.put c.entity.table t' s.tables := by
  rw [save] at h
  obtain ⟨checked, hchecked, h⟩ := Call.bind_ofExcept_ok h
  obtain ⟨response, s₂, hput, h⟩ := Call.bind_ok h
  obtain ⟨hstored, rfl⟩ := Prod.mk.inj h
  obtain rfl : Fields.merge checked (c.ownFields record) = stored := Except.ok.inj hstored
  exact ⟨checked, hchecked, rfl, MemoryStore.put_ok (ofStore_ok hput)⟩

/-- **A record that is saved** has been put into its table, in normal form and with its key fields set. -/
theorem save_ok (hcheck : c.KeepsNormal) (hn : record.Normal) (hid : c.entity.Stamped id record)
    (h : c.save record s = (.ok stored, s')) :
    stored.Normal ∧ c.entity.Stamped id stored ∧ ∃ t old t', s.tables.find c.entity.table = some t ∧
      t.put (Record.toItem stored) = .ok (old, t') ∧ s'.tables = Fields.put c.entity.table t' s.tables := by
  obtain ⟨checked, hchecked, rfl, hput⟩ := save_put h
  refine ⟨?_, stamped_merge hid checked, hput⟩
  apply (hcheck record checked hn hchecked).merge
  intro entry hmem
  exact hn.find (c.ownFields_agree record entry hmem)

/-! ## Reading by id -/

/-- A record that is read as a whole needs no projection. -/
theorem projection_none (c : Collection) (suffix : String) : c.projection suffix none = .ok {} := by
  rfl

/-- Texts of which none is blank are accepted. -/
theorem requireTexts_of_not_blank {texts : List (String × String)}
    (h : ∀ entry ∈ texts, Text.isBlankText entry.2 = false) : AccessError.requireTexts texts = .ok () := by
  have hnil : (texts.filter fun entry => Text.isBlankText entry.2) = [] := by
    apply List.filter_eq_nil_iff.2
    intro entry hmem
    rw [h entry hmem]
    exact Bool.false_ne_true
  rw [AccessError.requireTexts, hnil]

/-- Texts of which one is blank are refused. -/
theorem requireTexts_of_blank {texts : List (String × String)}
    (h : ∃ entry ∈ texts, Text.isBlankText entry.2 = true) :
    ∃ labels, AccessError.requireTexts texts = .error (.misuse (.blank labels)) := by
  obtain ⟨entry, hmem, hblank⟩ := h
  rw [AccessError.requireTexts]
  split
  · rename_i hnil
    exact absurd hblank (List.filter_eq_nil_iff.1 hnil entry hmem)
  · exact ⟨_, rfl⟩

theorem checkId_of_not_blank (hid : Text.isBlankText id = false) : checkId id = .ok () :=
  requireTexts_of_not_blank fun entry hmem => by rwa [List.mem_singleton.1 hmem]

/-- A key of texts that are not blank is accepted. -/
theorem requireTexts_key (hvalue : Text.isBlankText c.entity.partitionValue = false)
    (hid : Text.isBlankText id = false) :
    AccessError.requireTexts [("PartitionKey", c.entity.partitionValue), ("Id", id)] = .ok () := by
  apply requireTexts_of_not_blank
  intro entry hmem
  rcases List.mem_pair.1 hmem with rfl | rfl
  · exact hvalue
  · exact hid

/-- A get of a record with an id that is accepted is one request. -/
theorem get_eq (h : AccessError.requireTexts [("PartitionKey", c.entity.partitionValue), ("Id", id)] = .ok ())
    (suffix : String) (s : MemoryStore) :
    c.get suffix id none s =
      ((MemoryStore.get ⟨c.entity.table, c.entity.key id, none, none, []⟩ s).1.mapError .store >>= fun response =>
          .ok (response.item.map Item.toRecord),
        (MemoryStore.get ⟨c.entity.table, c.entity.key id, none, none, []⟩ s).2) := by
  rw [get, h, projection_none]
  show (ofStore (MemoryStore.get ⟨c.entity.table, c.entity.key id, none, none, []⟩) >>= fun response =>
    pure (response.item.map Item.toRecord)) s = _
  rw [Call.bind_eq, ofStore_eq]
  cases (MemoryStore.get ⟨c.entity.table, c.entity.key id, none, none, []⟩ s).1 <;> rfl

theorem reads_get (c : Collection) (suffix id : String) : Reads (c.get suffix id none) := by
  intro s
  cases hcheck : AccessError.requireTexts [("PartitionKey", c.entity.partitionValue), ("Id", id)] with
  | error e =>
    rw [get, hcheck]
    rfl
  | ok u =>
    rw [get_eq hcheck]
    exact MemoryStore.reads_get _ s

/-- **A record** is read as what its table has at its place, unless there is a planned failure. -/
theorem get_found (hne : c.entity.partitionField ≠ c.entity.sortField)
    (hvalue : Text.isBlankText c.entity.partitionValue = false) (hid : Text.isBlankText id = false)
    (ht : s.tables.find c.entity.table = some t) (hkey : t.shape.key = c.entity.keyShape) (suffix : String) :
    (c.get suffix id none s).1 =
      ((s.faults.note .getItem).1.mapError .store >>= fun _ =>
        .ok ((t.at? (c.entity.address id)).map Item.toRecord)) := by
  rw [get_eq (requireTexts_key hvalue hid)]
  dsimp only
  rw [MemoryStore.get_eq rfl ht (Table.get_eq (Entity.address_key hne hkey id))]
  cases (s.faults.note .getItem).1 <;> rfl

/-! ## Changes that succeed -/

variable {freshId now : String} {data : Json}

theorem checkId_ok (h : checkId id = .ok ()) : Text.isBlankText id = false := by
  cases hid : Text.isBlankText id with
  | false => rfl
  | true =>
    have hblank : checkId id = .error (.misuse (.blank ["Id"])) := by
      simp [checkId, AccessError.requireTexts, hid]
    rw [hblank] at h
    cases h

/-- A record that is created has been saved with its own id or the fresh one. -/
theorem create_ok (h : c.create freshId now data s = (.ok stored, s')) :
    ∃ record, Record.ofJson data = .ok record ∧
      c.save (c.entity.stamp ((c.entity.id? record).getD freshId) (Fields.put createdField (.string now) record)) s =
        (.ok stored, s') := by
  obtain ⟨record, hrecord, h⟩ := Call.bind_ofExcept_ok h
  obtain ⟨_, -, h⟩ := Call.bind_ofExcept_ok h
  exact ⟨record, hrecord, h⟩

/-- A record that takes the place of another has been saved with its own id. -/
theorem replace_ok (h : c.replace now data s = (.ok stored, s')) :
    ∃ record id, Record.ofJson data = .ok record ∧ c.entity.id? record = some id ∧
      c.save (c.entity.stamp id (Fields.put modifiedField (.string now) record)) s = (.ok stored, s') := by
  obtain ⟨record, hrecord, h⟩ := Call.bind_ofExcept_ok h
  cases hid : c.entity.id? record with
  | none =>
    rw [hid] at h
    cases (Prod.mk.inj h).1
  | some id =>
    rw [hid] at h
    obtain ⟨_, -, h⟩ := Call.bind_ofExcept_ok h
    exact ⟨record, id, hrecord, hid, h⟩

/-- A record that is updated was there, and has been saved with the changes. -/
theorem update_ok (h : c.update id data s = (.ok stored, s')) :
    ∃ changes old s₁, Record.ofJson data = .ok changes ∧ Text.isBlankText id = false ∧
      c.get "" id none s = (.ok (some old), s₁) ∧
      c.save (c.entity.stamp id (Fields.merge old changes)) s₁ = (.ok stored, s') := by
  obtain ⟨changes, hchanges, h⟩ := Call.bind_ofExcept_ok h
  obtain ⟨_, hid, h⟩ := Call.bind_ofExcept_ok h
  obtain ⟨found, s₁, hget, h⟩ := Call.bind_ok h
  cases found with
  | none => cases (Prod.mk.inj h).1
  | some old =>
    obtain ⟨_, -, h⟩ := Call.bind_ofExcept_ok h
    exact ⟨changes, old, s₁, hchanges, checkId_ok hid, hget, h⟩

/-- A record that is deleted was there, and has been deleted under its key. -/
theorem delete_ok (h : c.delete id s = (.ok record, s')) :
    ∃ s₁ response, Text.isBlankText id = false ∧ c.get "" id none s = (.ok (some record), s₁) ∧
      MemoryStore.delete ⟨c.entity.table, c.entity.key id⟩ s₁ = (.ok response, s') := by
  obtain ⟨_, hid, h⟩ := Call.bind_ofExcept_ok h
  obtain ⟨found, s₁, hget, h⟩ := Call.bind_ok h
  cases found with
  | none => cases (Prod.mk.inj h).1
  | some old =>
    obtain ⟨response, s₂, hdelete, h⟩ := Call.bind_ok h
    obtain ⟨hr, rfl⟩ := Prod.mk.inj h
    cases hr
    exact ⟨s₁, _, checkId_ok hid, hget, ofStore_ok hdelete⟩

end Collection

end RecordStore
