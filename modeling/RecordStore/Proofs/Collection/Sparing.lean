import RecordStore.Proofs.Collection.Keeping

/-!
# What a collection leaves alone

Collections may share a table if each has a partition of its own. `Entity.Neighbours e f` says this of two entities, and
`MemoryStore.Holds e shape p` of a store that the partition of `e` is `p`. A task of a collection of `f` keeps this,
whatever it is, whatever the check makes of a record and wherever the store fails: `Task.keeps_run`. Only two facts
about the collection matter. A record that is put has the key fields of `f` (`Collection.stamped_merge`), and a key of
which an item is deleted is one of `f`, also if it comes back in what the store has left undone.

**`Collection.holds_after`**: after any tasks, with any faults planned for each, the partition of `e` is what it was.
-/

namespace RecordStore

open Call (Keeps)

/-- Two entities have a table and its key fields in common, but no partition. -/
structure Entity.Neighbours (e f : Entity) : Prop where
  table : f.table = e.table
  partitionField : f.partitionField = e.partitionField
  sortField : f.sortField = e.sortField
  apart : f.partitionValue ≠ e.partitionValue

theorem Entity.Neighbours.texts_ne {e f : Entity} (h : e.Neighbours f) :
    Attribute.text f.partitionValue ≠ .text e.partitionValue :=
  fun heq => h.apart (Attribute.text.inj heq)

/-- The table of an entity has some shape, and in the partition of the entity are some items. -/
def MemoryStore.Holds (e : Entity) (shape : TableShape) (p : Partition) (s : MemoryStore) : Prop :=
  ∃ t, s.tables.find e.table = some t ∧ t.Reached shape ∧ t.partition (.text e.partitionValue) = p

theorem Record.toItem_eq_map : ∀ record : Record, record.toItem = record.map fun entry => (entry.1, .ofJson entry.2)
  | [] => rfl
  | (name, value) :: rest => by
    rw [List.map_cons, ← toItem_eq_map rest]
    rfl

/-- The fields of a record are in the same order in its item. -/
theorem Record.ordered_toItem {record : Record} (h : Fields.Ordered record) : Fields.Ordered record.toItem := by
  rw [toItem_eq_map]
  exact List.pairwise_map.2 h

theorem Item.ordered_toRecord {item : Item} (h : Fields.Ordered item) : Fields.Ordered item.toRecord := by
  rw [toRecord_eq_map]
  exact List.pairwise_map.2 h

/-- An item that is found in a table is in order. -/
theorem Table.Sound.ordered_of_get {t : Table} {key : Key} {item : Item} (hs : t.Sound)
    (h : t.get key = .ok (some item)) : Fields.Ordered item :=
  hs.ordered item (mem_of_get h)

namespace MemoryStore

variable {e : Entity} {shape : TableShape} {p : Partition} {s s' : MemoryStore}

theorem Holds.of_tables (h : Holds e shape p s) (hs : s'.tables = s.tables) : Holds e shape p s' := by
  obtain ⟨t, ht, hreached, hpartition⟩ := h
  exact ⟨t, hs ▸ ht, hreached, hpartition⟩

/-! ## Calls that change no table -/

theorem keeps_record (operation : Operation) : Keeps (Holds e shape p) (record operation) fun _ => True :=
  fun _ hs => ⟨hs.of_tables rfl, fun _ _ => trivial⟩

theorem keeps_takeUndone (operation : Operation) : Keeps (Holds e shape p) (takeUndone operation) fun _ => True :=
  fun _ hs => ⟨hs.of_tables rfl, fun _ _ => trivial⟩

theorem keeps_ask {α : Type} {answer : MemoryStore → Except StoreError α} {Q : α → Prop}
    (h : ∀ s a, Holds e shape p s → answer s = .ok a → Q a) : Keeps (Holds e shape p) (ask answer) Q :=
  fun s hs => ⟨hs, fun a ha => h s a hs ha⟩

theorem keeps_counted {α : Type} (operation : Operation) (answer : MemoryStore → Except StoreError α) :
    Keeps (Holds e shape p) (do record operation; ask answer) fun _ => True :=
  (keeps_record operation).bind fun _ _ => keeps_ask fun _ _ _ _ => trivial

theorem keeps_batchGet (r : BatchGetRequest) : Keeps (Holds e shape p) (batchGet r) fun _ => True :=
  (keeps_record _).bind fun _ _ => Keeps.bind (keeps_ask fun _ _ _ _ => trivial) fun _ _ =>
    (keeps_takeUndone _).bind fun _ _ => keeps_ask fun _ _ _ _ => trivial

theorem keptByGets : Store.KeptByGets (Holds e shape p) := ⟨fun _ => keeps_counted _ _, keeps_batchGet⟩

/-- Items that are read as a whole are in order. -/
theorem keeps_get {r : GetRequest} (hname : r.table = e.table) (hp : r.projection = none) :
    Keeps (Holds e shape p) (get r) fun response => ∀ item ∈ response.item, Fields.Ordered item := by
  refine (keeps_record _).bind fun _ _ => keeps_ask fun s response hs h => ?_
  obtain ⟨t, ht, hreached, -⟩ := hs
  rw [hp] at h
  obtain ⟨projection, hprojection, h⟩ := bind_eq_ok.1 h
  obtain ⟨t', ht', h⟩ := bind_eq_ok.1 h
  obtain ⟨found, hfound, hresponse⟩ := bind_eq_ok.1 h
  obtain rfl : none = projection := Except.ok.inj hprojection
  rw [table?, hname, ht] at ht'
  obtain rfl : t = t' := Except.ok.inj ht'
  obtain rfl : ⟨found.map (projected r.names none)⟩ = response := Except.ok.inj hresponse
  intro item hitem
  obtain ⟨item, rfl, rfl⟩ := Option.map_eq_some_iff.1 hitem
  cases hget : t.get r.key with
  | error cause =>
    rw [hget] at hfound
    cases hfound
  | ok found' =>
    rw [hget] at hfound
    cases hfound
    exact hreached.sound.ordered_of_get hget

/-! ## Changes beside a partition -/

variable {f : Entity}

/-- A change keeps a partition if it does so in every table of the shape. -/
theorem keeps_change {α : Type} {name : String} {edit : Table → Except TableError (α × Table)} (hname : name = e.table)
    (h : ∀ t a t', t.Reached shape → edit t = .ok (a, t') →
      t'.Reached shape ∧ t'.partition (.text e.partitionValue) = t.partition (.text e.partitionValue)) :
    Keeps (Holds e shape p) (change name edit) fun _ => True := by
  subst hname
  intro s hs
  refine ⟨?_, fun _ _ => trivial⟩
  cases hchange : change e.table edit s with
  | mk r s' =>
    cases r with
    | error cause =>
      have htables := allOrNothing_change e.table edit s cause (by rw [hchange])
      rw [hchange] at htables
      exact hs.of_tables htables
    | ok a =>
      obtain ⟨t, t', ht, hedit, rfl⟩ := change_ok hchange
      obtain ⟨t₀, ht₀, hreached, hpartition⟩ := hs
      obtain rfl : t₀ = t := Option.some.inj (ht₀.symm.trans ht)
      obtain ⟨hreached', hsame⟩ := h _ _ _ hreached hedit
      refine ⟨t', ?_, hreached', hsame.trans hpartition⟩
      rw [setTable, Fields.find_put, if_pos rfl]

/-- A put of an item with the key fields of a neighbour. -/
theorem keeps_put (hn : e.Neighbours f) (hkey : shape.key = f.keyShape) {id : String} {record : Record}
    (hid : f.Stamped id record) (ho : Fields.Ordered record) :
    Keeps (Holds e shape p) (put ⟨f.table, Record.toItem record⟩) fun _ => True := by
  have hchange : Keeps (Holds e shape p) (change f.table (·.put (Record.toItem record))) fun _ => True := by
    refine keeps_change hn.table fun t old t' hreached hput => ⟨hreached.put (Record.ordered_toItem ho) hput, ?_⟩
    obtain ⟨value, sort, haddress, -, -, rfl⟩ := Table.put_ok hput
    rw [hid.address (by rw [hreached.shape_eq]; exact hkey)] at haddress
    cases haddress
    rw [Table.partition_setPartition, if_neg hn.texts_ne]
  exact (keeps_record _).bind fun _ _ => hchange.bind fun _ _ => Call.keeps_pure trivial

/-- A delete under a key of a neighbour. -/
theorem keeps_change_delete (hn : e.Neighbours f) (hkey : shape.key = f.keyShape)
    (hne : f.partitionField ≠ f.sortField) (id : String) :
    Keeps (Holds e shape p) (change f.table (·.delete (f.key id))) fun _ => True := by
  refine keeps_change hn.table fun t old t' hreached hdelete => ⟨hreached.delete hdelete, ?_⟩
  obtain ⟨value, sort, haddress, -, rfl⟩ := Table.delete_ok hdelete
  rw [Entity.address_key hne (by rw [hreached.shape_eq]; exact hkey)] at haddress
  cases haddress
  rw [Table.partition_left, if_neg hn.texts_ne]

theorem keeps_delete (hn : e.Neighbours f) (hkey : shape.key = f.keyShape) (hne : f.partitionField ≠ f.sortField)
    (id : String) : Keeps (Holds e shape p) (delete ⟨f.table, f.key id⟩) fun _ => True :=
  (keeps_record _).bind fun _ _ => (keeps_change_delete hn hkey hne id).bind fun _ _ => Call.keeps_pure trivial

/-! ## Batches of deletes -/

/-- The entries of a batch delete under keys of an entity. -/
def Deletes (f : Entity) (entries : List WriteEntry) : Prop :=
  ∀ entry ∈ entries, ∃ id, entry = .ofKey (f.key id)

theorem keeps_writeEntries (hn : e.Neighbours f) (hkey : shape.key = f.keyShape)
    (hne : f.partitionField ≠ f.sortField) : ∀ {entries : List WriteEntry}, Deletes f entries →
      Keeps (Holds e shape p) (writeEntries f.table entries) fun _ => True
  | [], _ => Call.keeps_pure trivial
  | entry :: entries, h => by
    obtain ⟨⟨id, rfl⟩, hrest⟩ := List.forall_mem_cons.1 h
    have hentry : Keeps (Holds e shape p) (writeEntry f.table (.ofKey (f.key id))) fun _ => True :=
      (keeps_change_delete hn hkey hne id).bind fun _ _ => Call.keeps_pure trivial
    exact hentry.bind fun _ _ => keeps_writeEntries hn hkey hne hrest

/-- What is left undone of a batch of deletes is one again. -/
theorem keeps_batchWrite (hn : e.Neighbours f) (hkey : shape.key = f.keyShape) (hne : f.partitionField ≠ f.sortField)
    {entries : List WriteEntry} (h : Deletes f entries) :
    Keeps (Holds e shape p) (batchWrite ⟨[(f.table, entries)]⟩) fun response =>
      Deletes f ((response.unprocessed.find f.table).getD []) := by
  refine (keeps_record _).bind fun _ _ => Keeps.bind (keeps_ask fun _ _ _ _ => trivial) fun _ _ => ?_
  refine (keeps_takeUndone _).bind fun undone _ => ?_
  refine Keeps.bind (keeps_ask fun _ _ _ _ => trivial) fun _ _ => ?_
  refine (keeps_writeEntries hn hkey hne fun entry hentry => h entry (List.mem_of_mem_take hentry)).bind fun _ _ => ?_
  refine Keeps.bind (Call.keeps_pure rfl : Keeps _ (pure _) (· = {})) fun more hmore => Call.keeps_pure ?_
  subst hmore
  dsimp only
  split
  · exact nofun
  · rw [Fields.find_cons, if_pos rfl]
    exact fun entry hentry => h entry (List.mem_of_mem_drop hentry)

end MemoryStore

open MemoryStore (Holds)

variable {e : Entity} {shape : TableShape} {p : Partition}

/-! ## Reads -/

namespace Page

theorem keeps_readPart (what : Selection) (descending : Bool) (cap : Option Nat) (start : Option Key) :
    Keeps (Holds e shape p) (readPart what descending cap start) fun _ => True := by
  unfold readPart
  cases what.kind with
  | query => exact (MemoryStore.keeps_counted _ _).map fun _ _ => trivial
  | scan => exact (MemoryStore.keeps_counted _ _).map fun _ _ => trivial

end Page

namespace Collection

/-- A record that is read as a whole is in order. -/
theorem keeps_get_whole {d : Collection} (hn : e.Neighbours d.entity) (id : String) :
    Keeps (Holds e shape p) (d.get "" id none) fun found => ∀ record ∈ found, Fields.Ordered record := by
  refine (Call.keeps_ofExcept fun _ _ => trivial).bind fun _ _ => ?_
  refine (Call.keeps_ofExcept (Q := (· = {})) fun projection h => ?_).bind fun projection hprojection => ?_
  · rw [projection_none] at h
    exact (Except.ok.inj h).symm
  · subst hprojection
    refine ((MemoryStore.keeps_get hn.table rfl).mapError _).bind fun response hresponse => Call.keeps_pure ?_
    intro record hrecord
    obtain ⟨item, hitem, rfl⟩ := Option.map_eq_some_iff.1 hrecord
    exact Item.ordered_toRecord (hresponse item hitem)

/-! ## Writes -/

/-- The check of a collection gives records in order for such records. -/
def KeepsOrder (d : Collection) : Prop :=
  ∀ record checked, Fields.Ordered record → d.check record = .ok checked → Fields.Ordered checked

section

variable {d : Collection} (hn : e.Neighbours d.entity) (hkey : shape.key = d.entity.keyShape)
  (hne : d.entity.partitionField ≠ d.entity.sortField) (hcheck : d.KeepsOrder)

include hn hkey hne hcheck

/-- Whatever the check makes of a record, it is put under a key of its own collection. -/
theorem keeps_save {id : String} {record : Record} (ho : Fields.Ordered record) :
    Keeps (Holds e shape p) (d.save (d.entity.stamp id record)) fun _ => True := by
  have hstamped : Fields.Ordered (d.entity.stamp id record) := ho.put.put
  refine (Call.keeps_ofExcept fun checked h => hcheck _ checked hstamped h).bind fun checked hchecked => ?_
  have hput := MemoryStore.keeps_put (p := p) hn hkey (stamped_merge (Entity.stamped_stamp hne id record) checked)
    (hchecked.merge _)
  exact (hput.mapError _).bind fun _ _ => Call.keeps_pure trivial

theorem keeps_create {freshId now : String} {data : Json}
    (hdata : ∀ record, Record.ofJson data = .ok record → Fields.Ordered record) :
    Keeps (Holds e shape p) (d.create freshId now data) fun _ => True := by
  refine (Call.keeps_ofExcept hdata).bind fun record ho => (Call.keeps_ofExcept fun _ _ => trivial).bind fun _ _ => ?_
  exact keeps_save hn hkey hne hcheck ho.put

theorem keeps_replace {now : String} {data : Json}
    (hdata : ∀ record, Record.ofJson data = .ok record → Fields.Ordered record) :
    Keeps (Holds e shape p) (d.replace now data) fun _ => True := by
  refine (Call.keeps_ofExcept hdata).bind fun record ho => ?_
  cases d.entity.id? record with
  | none => exact Call.keeps_throw _
  | some id =>
    exact (Call.keeps_ofExcept fun _ _ => trivial).bind fun _ _ => keeps_save hn hkey hne hcheck ho.put

theorem keeps_update {id : String} {data : Json} :
    Keeps (Holds e shape p) (d.update id data) fun _ => True := by
  refine (Call.keeps_ofExcept fun _ _ => trivial).bind fun changes _ => ?_
  refine (Call.keeps_ofExcept fun _ _ => trivial).bind fun _ _ => (keeps_get_whole hn id).bind fun found hfound => ?_
  cases found with
  | none => exact Call.keeps_throw _
  | some record =>
    refine (Call.keeps_ofExcept fun _ _ => trivial).bind fun _ _ => ?_
    exact keeps_save hn hkey hne hcheck ((hfound record rfl).merge changes)

omit hcheck

theorem keeps_deleteOne (id : String) : Keeps (Holds e shape p) (d.delete id) fun _ => True := by
  refine (Call.keeps_ofExcept fun _ _ => trivial).bind fun _ _ => ?_
  refine (d.keeps_get MemoryStore.keptByGets "" id none).bind fun found _ => ?_
  cases found with
  | none => exact Call.keeps_throw _
  | some record =>
    exact ((MemoryStore.keeps_delete hn hkey hne id).mapError _).bind fun _ _ => Call.keeps_pure trivial

theorem keeps_deleteRounds : ∀ (n : Nat) {batch : List WriteEntry}, MemoryStore.Deletes d.entity batch →
    Keeps (Holds e shape p) (d.deleteRounds n batch) fun _ => True
  | 0, [], _ => Call.keeps_pure trivial
  | _ + 1, [], _ => Call.keeps_pure trivial
  | 0, _ :: _, _ => Call.keeps_throw _
  | n + 1, _ :: _, h => by
    refine ((MemoryStore.keeps_batchWrite hn hkey hne h).mapError _).bind fun response hleft => ?_
    exact keeps_deleteRounds n hleft

theorem keeps_deleteChunks : ∀ chunks : List (List String),
    Keeps (Holds e shape p) (d.deleteChunks chunks) fun _ => True
  | [] => Call.keeps_pure trivial
  | ids :: rest => by
    have hdeletes : MemoryStore.Deletes d.entity (ids.map fun id => .ofKey (d.entity.key id)) := by
      intro entry hentry
      obtain ⟨id, -, rfl⟩ := List.mem_map.1 hentry
      exact ⟨id, rfl⟩
    exact (keeps_deleteRounds hn hkey hne _ hdeletes).bind fun _ _ => keeps_deleteChunks rest

end

end Collection

/-! ## Tasks -/

namespace Task

/-- The data of a task, if it has any, is in order. -/
def Ordered (task : Task) : Prop :=
  match task with
  | .create _ _ data | .replace _ data => ∀ record, Record.ofJson data = .ok record → Fields.Ordered record
  | _ => True

/-- **A task** of a collection leaves the partitions of its neighbours as they are. -/
theorem keeps_run {d : Collection} (hn : e.Neighbours d.entity) (hkey : shape.key = d.entity.keyShape)
    (hne : d.entity.partitionField ≠ d.entity.sortField) (hcheck : d.KeepsOrder) {task : Task} (h : task.Ordered) :
    Keeps (Holds e shape p) (task.run d) fun _ => True := by
  have hpage : ∀ suffix q, Keeps (Holds e shape p) (d.page suffix q) fun _ => True := fun suffix q =>
    d.keeps_page fun what _ _ cap start => Page.keeps_readPart what _ cap start
  cases task with
  | create freshId now data => exact (Collection.keeps_create hn hkey hne hcheck h).map fun _ _ => trivial
  | replace now data => exact (Collection.keeps_replace hn hkey hne hcheck h).map fun _ _ => trivial
  | update id data => exact (Collection.keeps_update hn hkey hne hcheck).map fun _ _ => trivial
  | delete id => exact (Collection.keeps_deleteOne hn hkey hne id).map fun _ _ => trivial
  | deleteMany ids =>
    exact (Call.keeps_ofExcept fun _ _ => trivial).bind fun _ _ => Collection.keeps_deleteChunks hn hkey hne _
  | get suffix id fields => exact (d.keeps_get MemoryStore.keptByGets suffix id fields).map fun _ _ => trivial
  | «exists» suffix id => exact (d.keeps_exists MemoryStore.keptByGets suffix id).map fun _ _ => trivial
  | batchGet suffix ids fields =>
    exact (d.keeps_batchGet MemoryStore.keptByGets suffix ids fields).map fun _ _ => trivial
  | page suffix q => exact (hpage suffix q).map fun _ _ => trivial
  | queryAll suffix q =>
    exact ((hpage suffix (.byKey { q with paging := Collection.unpaged q.paging })).bind
      (B := fun _ => True) fun _ _ => Call.keeps_pure trivial).map fun _ _ => trivial
  | indexQueryAll suffix q =>
    exact ((hpage suffix (.byIndex { q with paging := Collection.unpaged q.paging })).bind
      (B := fun _ => True) fun _ _ => Call.keeps_pure trivial).map fun _ _ => trivial

end Task

/-- A task, and the faults that are planned for it. -/
structure Turn where
  faults : Faults
  task : Task

namespace Collection

/-- The store after some turns of a collection, whatever came of each. -/
def after (d : Collection) (s : MemoryStore) (turns : List Turn) : MemoryStore :=
  turns.foldl (fun s turn => (turn.task.run d { s with faults := turn.faults }).2) s

/-- **After any turns of a neighbour**, the partition of an entity is what it was. -/
theorem holds_after {d : Collection} (hn : e.Neighbours d.entity) (hkey : shape.key = d.entity.keyShape)
    (hne : d.entity.partitionField ≠ d.entity.sortField) (hcheck : d.KeepsOrder) {turns : List Turn}
    (h : ∀ turn ∈ turns, turn.task.Ordered) {s : MemoryStore} (hs : Holds e shape p s) :
    Holds e shape p (d.after s turns) := by
  induction turns generalizing s with
  | nil => exact hs
  | cons turn turns ih =>
    obtain ⟨hturn, hturns⟩ := List.forall_mem_cons.1 h
    have hplanned : Holds e shape p { s with faults := turn.faults } := hs.of_tables rfl
    exact ih hturns (Task.keeps_run hn hkey hne hcheck hturn _ hplanned).1

end Collection

end RecordStore
