import Mathlib
import RecordStore.Proofs.Collection.Saving

/-!
# A collection is a map from ids to records

A history of a collection is a list of events: faults are planned for its store, and changes are called for, of which
some fail. `Collection.Represents` ties the table to a map from ids to records; every change that succeeds keeps it
(`Change.run_represents`) and every change that fails changes nothing (`Change.allOrNothing_run`). Hence
**`Collection.refines_map`**: what is read under an id is what the last successful change there has left.
-/

namespace RecordStore

open Call (Reads AllOrNothing)

variable {c : Collection} {s s' : MemoryStore} {id : String} {record : Record}

/-! ## The table as a map -/

namespace Collection

/-- The table of a collection holds the records of a map, each in normal form and at the place of its id. -/
structure Represents (c : Collection) (m : String → Option Record) (s : MemoryStore) : Prop where
  normal : ∀ id record, m id = some record → record.Normal
  table : ∃ t, s.tables.find c.entity.table = some t ∧ t.shape.key = c.entity.keyShape ∧
    ∀ id, t.at? (c.entity.address id) = (m id).map Record.toItem

variable {m : String → Option Record}

/-- An empty table holds no records. -/
theorem represents_empty {shape : TableShape} (hkey : shape.key = c.entity.keyShape)
    (ht : s.tables.find c.entity.table = some (.empty shape)) : c.Represents (fun _ => none) s where
  normal := nofun
  table := ⟨_, ht, hkey, fun _ => rfl⟩

theorem Represents.of_tables (h : c.Represents m s) (hs : s'.tables = s.tables) : c.Represents m s' where
  normal := h.normal
  table := by
    rw [hs]
    exact h.table

/-- What is read under an id is what the map has there, unless there is a planned failure. -/
theorem Represents.get_eq (h : c.Represents m s) (hne : c.entity.partitionField ≠ c.entity.sortField)
    (hvalue : Text.isBlankText c.entity.partitionValue = false) (hid : Text.isBlankText id = false) (suffix : String) :
    (c.get suffix id none s).1 = ((s.faults.note .getItem).1.mapError .store >>= fun _ => .ok (m id)) := by
  obtain ⟨t, ht, hkey, hat⟩ := h.table
  have hback : ((m id).map Record.toItem).map Item.toRecord = m id := by
    cases hm : m id with
    | none => rfl
    | some record =>
      rw [Option.map_some, Option.map_some, Record.toRecord_toItem (h.normal id record hm)]
  rw [get_found hne hvalue hid ht hkey, hat, hback]

/-- A record that is read under an id is what the map has there, and the tables are as before. -/
theorem Represents.get_ok
    (h : c.Represents m s) (hne : c.entity.partitionField ≠ c.entity.sortField)
    (hvalue : Text.isBlankText c.entity.partitionValue = false) (hid : Text.isBlankText id = false) {suffix : String}
    {found : Option Record} (hget : c.get suffix id none s = (.ok found, s')) :
    m id = found ∧ s'.tables = s.tables := by
  have hfound := h.get_eq hne hvalue hid suffix
  have hs := c.reads_get suffix id s
  rw [hget] at hfound hs
  obtain ⟨_, -, hm⟩ := bind_eq_ok.1 hfound.symm
  exact ⟨Except.ok.inj hm, hs⟩

/-- If the item at the place of an id is set, so is the record that the map has there. -/
theorem Represents.set {t t' : Table} {left : Option Record} (h : c.Represents m s)
    (hn : ∀ record ∈ left, record.Normal) (ht : s.tables.find c.entity.table = some t)
    (hs : s'.tables = Fields.put c.entity.table t' s.tables) (hshape : t'.shape = t.shape)
    (hat' : ∀ b, t'.at? b = if Table.SameAddress (c.entity.address id) b then left.map Record.toItem else t.at? b) :
    c.Represents (Function.update m id left) s' := by
  obtain ⟨t₀, ht₀, hkey, hat⟩ := h.table
  obtain rfl : t₀ = t := Option.some.inj (ht₀.symm.trans ht)
  constructor
  · intro id' record hm
    rw [Function.update_apply] at hm
    split at hm
    · exact hn record hm
    · exact h.normal id' record hm
  · refine ⟨t', ?_, ?_, ?_⟩
    · rw [hs, Fields.find_put, if_pos rfl]
    · rw [hshape, hkey]
    · intro id'
      rw [hat', Function.update_apply, hat]
      by_cases hid' : id = id'
      · rw [if_pos (Entity.sameAddress_iff.2 hid'), if_pos hid'.symm]
      · rw [if_neg (mt Entity.sameAddress_iff.1 hid'), if_neg (Ne.symm hid')]

/-- A record that is saved is what the map has under its id then. -/
theorem Represents.save {stored : Record} (h : c.Represents m s) (hcheck : c.KeepsNormal) (hn : record.Normal)
    (hid : c.entity.Stamped id record) (hsave : c.save record s = (.ok stored, s')) :
    c.Represents (Function.update m id (some stored)) s' := by
  obtain ⟨hstored, hstamped, t, old, t', ht, hput, hs⟩ := save_ok hcheck hn hid hsave
  obtain ⟨t₀, ht₀, hkey, -⟩ := h.table
  obtain rfl : t₀ = t := Option.some.inj (ht₀.symm.trans ht)
  refine h.set ?_ ht hs (Table.put_shape hput) (Table.at?_put hput (hstamped.address hkey))
  rintro _ ⟨⟩
  exact hstored

/-- A record that is deleted is no longer in the map. -/
theorem Represents.delete {response : WriteResponse} (h : c.Represents m s)
    (hne : c.entity.partitionField ≠ c.entity.sortField)
    (hdelete : MemoryStore.delete ⟨c.entity.table, c.entity.key id⟩ s = (.ok response, s')) :
    c.Represents (Function.update m id none) s' := by
  obtain ⟨t, old, t', ht, htable, hs⟩ := MemoryStore.delete_ok hdelete
  obtain ⟨t₀, ht₀, hkey, -⟩ := h.table
  obtain rfl : t₀ = t := Option.some.inj (ht₀.symm.trans ht)
  exact h.set nofun ht hs (Table.delete_shape htable) (Table.at?_delete htable (Entity.address_key hne hkey id))

end Collection

/-! ## Changes -/

/-- A call that changes a record, with the fresh id and the time that it is given. -/
inductive Change where
  | create (freshId now : String) (data : Json)
  | replace (now : String) (data : Json)
  | update (id : String) (data : Json)
  | delete (id : String)

namespace Change

/-- The call. -/
def run (c : Collection) : Change → Call MemoryStore AccessError Record
  | .create freshId now data => c.create freshId now data
  | .replace now data => c.replace now data
  | .update id data => c.update id data
  | .delete id => c.delete id

/-- The data that a change brings. -/
def data? : Change → Option Json
  | .create _ _ data | .replace _ data | .update _ data => some data
  | .delete _ => none

/-- The id of the record that is changed. -/
def target (e : Entity) : Change → String
  | .create freshId _ data => (data.fields?.bind e.id?).getD freshId
  | .replace _ data => (data.fields?.bind e.id?).getD ""
  | .update id _ | .delete id => id

/-- What a change that gave a record has left under its id. -/
def left (record : Record) : Change → Option Record
  | .delete _ => none
  | _ => some record

/-- A change that fails leaves the tables as they are. -/
theorem allOrNothing_run (c : Collection) (change : Change) : AllOrNothing (change.run c) := by
  cases change with
  | create freshId now data =>
    apply (Call.reads_ofExcept _).bind
    intro record
    apply (Call.reads_ofExcept _).bind
    intro _
    exact c.allOrNothing_save _
  | replace now data =>
    apply (Call.reads_ofExcept _).bind
    intro record
    cases hid : c.entity.id? record with
    | none => exact Call.allOrNothing_throw _
    | some id =>
      apply (Call.reads_ofExcept _).bind
      intro _
      exact c.allOrNothing_save _
  | update id data =>
    apply (Call.reads_ofExcept _).bind
    intro changes
    apply (Call.reads_ofExcept _).bind
    intro _
    apply (c.reads_get "" id).bind
    intro found
    cases found with
    | none => exact Call.allOrNothing_throw _
    | some record =>
      apply (Call.reads_ofExcept _).bind
      intro _
      exact c.allOrNothing_save _
  | delete id =>
    apply (Call.reads_ofExcept _).bind
    intro _
    apply (c.reads_get "" id).bind
    intro found
    cases found with
    | none => exact Call.allOrNothing_throw _
    | some record => exact ((MemoryStore.allOrNothing_delete _).mapError _).bind_pure _

variable {m : String → Option Record} {change : Change}

/-- A change is made with data in normal form. -/
def Normal (change : Change) : Prop :=
  ∀ data ∈ change.data?, data.Ordered

/-- **A change that succeeds** has changed what the map has under its id, and nothing else. -/
theorem run_represents
    (hne : c.entity.partitionField ≠ c.entity.sortField)
    (hvalue : Text.isBlankText c.entity.partitionValue = false) (hcheck : c.KeepsNormal) (hn : change.Normal)
    (h : c.Represents m s) (hrun : change.run c s = (.ok record, s')) :
    c.Represents (Function.update m (change.target c.entity) (change.left record)) s' := by
  cases change with
  | create freshId now data =>
    obtain ⟨fields, hfields, hsave⟩ := Collection.create_ok hrun
    have hfieldsn := Record.normal_ofJson (hn data rfl) hfields
    cases data with
    | object fields' =>
      cases hfields
      exact h.save hcheck (Entity.normal_stamp (hfieldsn.put (Json.ordered_string now)) _)
        (Entity.stamped_stamp hne _ _) hsave
    | _ => cases hfields
  | replace now data =>
    obtain ⟨fields, id, hfields, hid, hsave⟩ := Collection.replace_ok hrun
    have hfieldsn := Record.normal_ofJson (hn data rfl) hfields
    cases data with
    | object fields' =>
      cases hfields
      have htarget : target c.entity (.replace now (.object fields)) = id := by
        rw [target, Json.fields?, Option.bind_some, hid, Option.getD_some]
      rw [htarget]
      exact h.save hcheck (Entity.normal_stamp (hfieldsn.put (Json.ordered_string now)) _)
        (Entity.stamped_stamp hne _ _) hsave
    | _ => cases hfields
  | update id data =>
    obtain ⟨changes, old, s₁, hchanges, hid, hget, hsave⟩ := Collection.update_ok hrun
    obtain ⟨hold, hs⟩ := h.get_ok hne hvalue hid hget
    have hchangesn := Record.normal_ofJson (hn data rfl) hchanges
    have holdn := h.normal id old hold
    exact (h.of_tables hs).save hcheck (Entity.normal_stamp (holdn.merge (Record.normal_iff.1 hchangesn).2) _)
      (Entity.stamped_stamp hne _ _) hsave
  | delete id =>
    obtain ⟨s₁, response, hid, hget, hdelete⟩ := Collection.delete_ok hrun
    obtain ⟨-, hs⟩ := h.get_ok hne hvalue hid hget
    exact (h.of_tables hs).delete hne hdelete

end Change

/-! ## Histories -/

/-- What happens to a store that serves a collection: faults are planned, or a change is called for. -/
inductive Event where
  | plan (faults : Faults)
  | call (change : Change)

/-- The data of an event is in normal form. -/
def Event.Normal : Event → Prop
  | .plan _ => True
  | .call change => change.Normal

/-- A change that was called for, and what came of it. -/
structure Entry where
  change : Change
  outcome : Except AccessError Record

/-- What an entry says of an id: nothing, or what it has left there. -/
def Entry.leaves (e : Entity) (id : String) (entry : Entry) : Option (Option Record) :=
  match entry.outcome with
  | .ok record => if entry.change.target e = id then some (entry.change.left record) else none
  | .error _ => none

/-- What the last successful change under an id has left there, by a log with the last change first. -/
def lastLeft (e : Entity) (log : List Entry) (id : String) : Option Record :=
  (log.findSome? (Entry.leaves e id)).join

theorem lastLeft_error (e : Entity) (change : Change) (cause : AccessError) (log : List Entry) :
    lastLeft e (⟨change, .error cause⟩ :: log) = lastLeft e log := rfl

theorem lastLeft_ok (e : Entity) (change : Change) (record : Record) (log : List Entry) :
    lastLeft e (⟨change, .ok record⟩ :: log) =
      Function.update (lastLeft e log) (change.target e) (change.left record) := by
  funext id
  rw [lastLeft, List.findSome?_cons, Entry.leaves, Function.update_apply]
  dsimp only
  by_cases hid : change.target e = id
  · rw [if_pos hid, if_pos hid.symm]
    rfl
  · rw [if_neg hid, if_neg (Ne.symm hid)]
    rfl

namespace Collection

/-- The store and the log after an event. -/
def next (c : Collection) : MemoryStore × List Entry → Event → MemoryStore × List Entry
  | (s, log), .plan faults => ({ s with faults }, log)
  | (s, log), .call change => ((change.run c s).2, ⟨change, (change.run c s).1⟩ :: log)

/-- The store after some events, and the log of the changes, the last one first. -/
def history (c : Collection) (s : MemoryStore) (events : List Event) : MemoryStore × List Entry :=
  events.foldl c.next (s, [])

/-- An event keeps the map of what is left. -/
theorem next_represents
    (hne : c.entity.partitionField ≠ c.entity.sortField)
    (hvalue : Text.isBlankText c.entity.partitionValue = false) (hcheck : c.KeepsNormal) {log : List Entry}
    {event : Event} (hn : event.Normal) (h : c.Represents (lastLeft c.entity log) s) :
    c.Represents (lastLeft c.entity (c.next (s, log) event).2) (c.next (s, log) event).1 := by
  cases event with
  | plan faults => exact h.of_tables rfl
  | call change =>
    rw [next]
    generalize hrun : change.run c s = o
    obtain ⟨outcome, s'⟩ := o
    cases outcome with
    | error cause =>
      rw [lastLeft_error]
      have hs := change.allOrNothing_run c s cause (by rw [hrun])
      rw [hrun] at hs
      exact h.of_tables hs
    | ok record =>
      rw [lastLeft_ok]
      exact change.run_represents hne hvalue hcheck hn h hrun

/-- A run keeps the map of what is left. -/
theorem foldl_represents (hne : c.entity.partitionField ≠ c.entity.sortField)
    (hvalue : Text.isBlankText c.entity.partitionValue = false) (hcheck : c.KeepsNormal) {log : List Entry}
    {events : List Event} (hn : ∀ event ∈ events, event.Normal) (h : c.Represents (lastLeft c.entity log) s) :
    c.Represents (lastLeft c.entity (events.foldl c.next (s, log)).2) (events.foldl c.next (s, log)).1 := by
  induction events generalizing s log with
  | nil => exact h
  | cons event events ih =>
    obtain ⟨hevent, hn⟩ := List.forall_mem_cons.1 hn
    exact ih hn (next_represents hne hvalue hcheck hevent h)

/--
**A collection is a map from ids to records.** Whatever was created, replaced, updated and deleted since its table was
empty, and whatever faults were planned in between: without a failure to come, what is read under an id is what the last
successful change there has left, if there was one. A change that fails leaves every table as it was.
-/
theorem refines_map {shape : TableShape} (hne : c.entity.partitionField ≠ c.entity.sortField)
    (hvalue : Text.isBlankText c.entity.partitionValue = false) (hkey : shape.key = c.entity.keyShape)
    (hcheck : c.KeepsNormal) {events : List Event} (hn : ∀ event ∈ events, event.Normal)
    (ht : s.tables.find c.entity.table = some (.empty shape)) :
    (∀ (faults : Faults) (suffix id : String), faults.failures = [] → Text.isBlankText id = false →
      (c.get suffix id none { (c.history s events).1 with faults }).1 =
        .ok (lastLeft c.entity (c.history s events).2 id)) ∧
    ∀ (change : Change) (s : MemoryStore) (cause : AccessError),
      (change.run c s).1 = .error cause → (change.run c s).2.tables = s.tables := by
  constructor
  · intro faults suffix id hfaults hid
    have hstart : c.Represents (lastLeft c.entity []) s := represents_empty hkey ht
    have hend := foldl_represents hne hvalue hcheck hn hstart
    have hplan : c.Represents (lastLeft c.entity (c.history s events).2) { (c.history s events).1 with faults } :=
      hend.of_tables rfl
    rw [hplan.get_eq hne hvalue hid suffix, MemoryStore.note_of_no_failures hfaults]
    rfl
  · intro change s cause h
    exact change.allOrNothing_run c s cause h

/-- A check that steals the id of every record, and changes of which one meets a planned failure and one is refused. -/
theorem refines_map_stolen :
    let shape : TableShape := ⟨"t", ⟨⟨"pk", .text⟩, some ⟨"id", .text⟩⟩, []⟩
    let c : Collection :=
      { entity := { table := "t", partitionValue := "p", partitionField := "pk" }
        check := fun record =>
          if record.has "bad" then .error (.requiredField "good") else .ok (Fields.put "id" (.string "x") record) }
    let s : MemoryStore := ⟨[("t", .empty shape)], {}⟩
    let zero : Json := .object [("n", .number (.double ⟨true, 0⟩))]
    let five : Json := .object [("n", .number (.whole 5))]
    let bad : Json := .object [("bad", .null), ("id", .string "b")]
    let events : List Event :=
      [.call (.create "a" "1" zero), .call (.create "b" "2" zero), .plan { failures := [⟨.putItem, 1, .throttled⟩] },
       .call (.update "a" five), .call (.update "b" five), .call (.replace "3" bad), .call (.delete "a")]
    let s' : MemoryStore := { (c.history s events).1 with faults := {} }
    (c.get "" "a" none s').1 = .ok none ∧
      (c.get "" "b" none s').1 = .ok (some [("createdAtDate", .string "2"), ("id", .string "b"),
        ("n", .number (.whole 5)), ("pk", .string "p")]) ∧
      ((Change.replace "3" bad).run c s').1 = .error (.requiredField "good") ∧
      ((Change.replace "3" bad).run c s').2.tables = s'.tables := by
  intro shape c s zero five bad events s'
  have hcheck : c.KeepsNormal := by
    intro record checked hn h
    simp only [c] at h
    split at h
    · cases h
    · cases h
      exact hn.put (Json.ordered_string "x")
  have hzero : zero.Ordered := ⟨Fields.ordered_singleton _, rfl, trivial⟩
  have hfive : five.Ordered := ⟨Fields.ordered_singleton _, rfl, trivial⟩
  have hbad : bad.Ordered :=
    ⟨List.pairwise_map.1 (show ["bad", "id"].Pairwise (· < ·) by decide), trivial, trivial, trivial⟩
  have hn : ∀ event ∈ events, event.Normal := by
    intro event hmem
    simp only [events, List.mem_cons, List.not_mem_nil, or_false] at hmem
    rcases hmem with rfl | rfl | rfl | rfl | rfl | rfl | rfl
    · rintro _ ⟨⟩
      exact hzero
    · rintro _ ⟨⟩
      exact hzero
    · trivial
    · rintro _ ⟨⟩
      exact hfive
    · rintro _ ⟨⟩
      exact hfive
    · rintro _ ⟨⟩
      exact hbad
    · rintro _ ⟨⟩
  obtain ⟨hget, hkept⟩ := @refines_map c s shape (by decide) (by decide) rfl hcheck events hn rfl
  have ha : lastLeft c.entity (c.history s events).2 "a" = none := by
    unfold events c s; cbv
  have hb : lastLeft c.entity (c.history s events).2 "b" = some [("createdAtDate", .string "2"), ("id", .string "b"),
      ("n", .number (.whole 5)), ("pk", .string "p")] := by
    unfold events c s; cbv
  have hrefused : ((Change.replace "3" bad).run c s').1 = .error (.requiredField "good") := by
    unfold c bad
    rfl
  refine ⟨?_, ?_, hrefused, hkept _ _ _ hrefused⟩
  · rw [hget {} "" "a" rfl (by decide), ha]
  · rw [hget {} "" "b" rfl (by decide), hb]

end Collection

end RecordStore
