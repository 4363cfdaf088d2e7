import RecordStore.Proofs.Collection.History
import RecordStore.Proofs.Table.Keys

/-!
# Required fields

The data of every change must have the required fields of the entity, and so has the record that is made of it and given
to the check (`Change.saved`). What is stored is what the check leaves of that record, with the fields that the
collection sets itself put back.

**`Collection.required_stored_iff`**: after any history, of the required fields of a record that is stored just those
are there that the collection sets or the check has left. A check that drops others drops required ones as well
(`Collection.required_dropped`).
-/

namespace RecordStore

variable {c : Collection} {s s' : MemoryStore} {change : Change} {data : Json} {record fields : Record}

/-! ## Fields that are there -/

/-- A field is there and not null. -/
def Record.Filled (record : Record) (name : String) : Prop :=
  ∃ value, record.find name = some value ∧ value ≠ .null

/-- An attribute is there and not null. -/
def Item.Filled (item : Item) (name : String) : Prop :=
  ∃ value, item.find name = some value ∧ ∀ b, value ≠ .null b

theorem Attribute.ofJson_eq_null_iff {j : Json} : (∃ b, ofJson j = .null b) ↔ j = .null := by
  cases j <;> simp [ofJson]

/-- In an item are those attributes not null that are fields of its record. -/
theorem Record.filled_toItem {name : String} : record.toItem.Filled name ↔ record.Filled name := by
  rw [Item.Filled, toItem, Attribute.find_ofJsonFields]
  constructor
  · rintro ⟨_, hfind, hnull⟩
    obtain ⟨value, hvalue, rfl⟩ := Option.map_eq_some_iff.1 hfind
    refine ⟨value, hvalue, ?_⟩
    rintro rfl
    exact hnull true rfl
  · rintro ⟨value, hvalue, hnull⟩
    refine ⟨_, by rw [hvalue, Option.map_some], fun b hb => ?_⟩
    exact hnull (Attribute.ofJson_eq_null_iff.1 ⟨b, hb⟩)

namespace Record.Filled

variable {name : String} {old changes : Record}

theorem put {own : String} {value : Json} (h : record.Filled name) (hv : value ≠ .null) :
    Record.Filled (Fields.put own value record) name := by
  obtain ⟨found, hfind, hnull⟩ := h
  rw [Record.Filled, Fields.find_put]
  split
  · exact ⟨value, rfl, hv⟩
  · exact ⟨found, hfind, hnull⟩

theorem put_string (h : record.Filled name) (own text : String) :
    Record.Filled (Fields.put own (.string text) record) name :=
  h.put Json.noConfusion

theorem stamp (h : record.Filled name) (e : Entity) (id : String) : Record.Filled (e.stamp id record) name :=
  (h.put_string e.partitionField e.partitionValue).put_string e.sortField id

theorem merge (h : changes.Filled name) (ho : Fields.Ordered changes) :
    Record.Filled (Fields.merge old changes) name := by
  obtain ⟨value, hfind, hnull⟩ := h
  exact ⟨value, by rw [Fields.find_merge ho, hfind, Option.some_or], hnull⟩

end Record.Filled

/-- Data has the required fields if none is missing or null. -/
theorem Entity.demandFields_ok_iff {e : Entity} :
    e.demandFields record = .ok () ↔ ∀ name ∈ e.requiredFields, record.Filled name := by
  have hnone : e.demandFields record = .ok () ↔
      (e.requiredFields.find? fun name => (record.find name).all (· = .null)) = none := by
    rw [demandFields]
    cases e.requiredFields.find? fun name => (record.find name).all (· = .null) <;> simp
  rw [hnone, List.find?_eq_none]
  refine forall₂_congr fun name _ => ?_
  rw [Record.Filled]
  cases record.find name <;> simp

/-! ## What a check leaves -/

namespace Collection

/-- **A required field is stored** if the collection sets it or the check has left it. -/
theorem filled_stored_iff {given : Record} {name : String} (h : given.Filled name) (checked : Record) :
    Record.Filled (Fields.merge checked (c.ownFields given)) name ↔
      name ∈ c.entity.ownNames ∨ checked.Filled name := by
  obtain ⟨value, hfind, hnull⟩ := h
  rw [Record.Filled, find_stored hfind]
  by_cases hown : name ∈ c.entity.ownNames
  · rw [if_pos hown]
    exact iff_of_true ⟨value, rfl, hnull⟩ (.inl hown)
  · rw [if_neg hown]
    exact ⟨.inr, fun h => h.resolve_left hown⟩

end Collection

/-- A list of fields leaves a field that is there if it keeps others or lists this one. -/
theorem FieldList.filled_checked_iff {list : FieldList} {given checked : Record} {name : String}
    (hcheck : list.check given = .ok checked) (h : given.Filled name) :
    checked.Filled name ↔ list.keepOthers = true ∨ name ∈ list.specs.map (·.name) := by
  obtain rfl : (if list.keepOthers then given else given.restrict (list.specs.map (·.name))) = checked := by
    rw [check] at hcheck
    split at hcheck
    · exact Except.ok.inj hcheck
    · cases hcheck
  by_cases hkeep : list.keepOthers = true
  · rw [if_pos hkeep]
    exact iff_of_true h (.inl hkeep)
  · rw [if_neg hkeep, Record.Filled, Fields.find_restrict]
    by_cases hlisted : name ∈ list.specs.map (·.name)
    · rw [if_pos hlisted]
      exact iff_of_true h (.inr hlisted)
    · rw [if_neg hlisted]
      exact iff_of_false nofun (not_or.2 ⟨hkeep, hlisted⟩)

/-! ## Where a record is stored -/

/-- The table of an entity is there, and its key is that of the entity. -/
def MemoryStore.Keyed (e : Entity) (s : MemoryStore) : Prop :=
  ∃ t, s.tables.find e.table = some t ∧ t.shape.key = e.keyShape

/-- The key fields of an id are the same in its key and in a record; they may be one field. -/
theorem Entity.find_key (e : Entity) (id : String) (record : Record) {name : String} (hname : name ∈ e.keyFields) :
    ∃ text, (e.stamp id record).find name = some (.string text) ∧ (e.key id).find name = some (.text text) := by
  have hkey : (e.key id).find name = if e.sortField = name then some (.text id)
      else if e.partitionField = name then some (.text e.partitionValue) else none := by
    show Fields.find (Fields.put e.sortField _ (Fields.put e.partitionField _ [])) name = _
    rw [Fields.find_put, Fields.find_put]
    rfl
  rw [hkey, stamp, Fields.find_put, Fields.find_put]
  by_cases hsort : e.sortField = name
  · rw [if_pos hsort, if_pos hsort]
    exact ⟨id, rfl, rfl⟩
  · obtain rfl : name = e.partitionField := (List.mem_pair.1 hname).resolve_right (Ne.symm hsort)
    rw [if_neg hsort, if_neg hsort, if_pos rfl, if_pos rfl]
    exact ⟨e.partitionValue, rfl, rfl⟩

namespace Collection

variable {id : String} {base stored : Record}

/-- **A record that is saved** is found under the key of its id, whatever the check has made of it. -/
theorem get_saved (h : s.Keyed c.entity) (hsave : c.save (c.entity.stamp id base) s = (.ok stored, s')) :
    ∃ t, s'.tables.find c.entity.table = some t ∧ t.shape.key = c.entity.keyShape ∧
      t.get (c.entity.key id) = .ok (some stored.toItem) := by
  obtain ⟨checked, -, rfl, t, old, t', ht, hput, hs'⟩ := save_put hsave
  obtain ⟨t₀, ht₀, hkey⟩ := h
  obtain rfl : t₀ = t := Option.some.inj (ht₀.symm.trans ht)
  refine ⟨t', by rw [hs', Fields.find_put, if_pos rfl], by rw [Table.put_shape hput, hkey], ?_⟩
  obtain ⟨value, sort, haddress, -⟩ := Table.put_ok hput
  have hsame : t₀.address (c.entity.key id) = t₀.address
      (Record.toItem (Fields.merge checked (c.ownFields (c.entity.stamp id base)))) := by
    apply Table.address_congr
    intro k hk
    have hname : k.name ∈ c.entity.keyFields := by
      rw [hkey] at hk
      exact List.mem_map_of_mem (f := (·.name)) hk
    obtain ⟨text, hstamped, hfound⟩ := c.entity.find_key id base hname
    have hown : k.name ∈ c.entity.ownNames := List.mem_append_left [createdField, modifiedField] hname
    rw [hfound, Record.toItem, Attribute.find_ofJsonFields, find_stored hstamped, if_pos hown]
    rfl
  rw [Table.get_put hput haddress (hsame.trans haddress), if_pos ⟨rfl, Std.ReflCmp.compare_self⟩]

end Collection

/-! ## Changes that bring data -/

theorem MemoryStore.Keyed.of_tables (h : s.Keyed c.entity) (hs : s'.tables = s.tables) : s'.Keyed c.entity := by
  obtain ⟨t, ht, hkey⟩ := h
  exact ⟨t, by rw [hs, ht], hkey⟩

namespace Change

/-- Data that was stored had the required fields. -/
theorem demanded (hd : change.data? = some (.object fields)) (hrun : change.run c s = (.ok record, s')) :
    c.entity.demandFields fields = .ok () := by
  cases change with
  | create freshId now data =>
    cases hd
    obtain ⟨_, hfields, h⟩ := Call.bind_ofExcept_ok hrun
    cases hfields
    obtain ⟨_, hdemand, -⟩ := Call.bind_ofExcept_ok h
    exact hdemand
  | replace now data =>
    cases hd
    obtain ⟨_, hfields, h⟩ := Call.bind_ofExcept_ok hrun
    cases hfields
    cases hid : c.entity.id? fields with
    | none =>
      rw [hid] at h
      cases (Prod.mk.inj h).1
    | some id =>
      rw [hid] at h
      obtain ⟨_, hdemand, -⟩ := Call.bind_ofExcept_ok h
      exact hdemand
  | update id data =>
    cases hd
    obtain ⟨_, hfields, h⟩ := Call.bind_ofExcept_ok hrun
    cases hfields
    obtain ⟨_, -, h⟩ := Call.bind_ofExcept_ok h
    obtain ⟨found, s₁, -, h⟩ := Call.bind_ok h
    cases found with
    | none => cases (Prod.mk.inj h).1
    | some old =>
      obtain ⟨_, hdemand, -⟩ := Call.bind_ofExcept_ok h
      exact hdemand
  | delete id => cases hd

/-- **A change that brings data** and succeeds has saved a record with all that is filled in the data, under an id. -/
theorem saved (hd : change.data? = some data) (hrun : change.run c s = (.ok record, s')) :
    ∃ fields base id s₁, data = .object fields ∧
      (Fields.Ordered fields → ∀ name, Record.Filled fields name → Record.Filled base name) ∧
      s₁.tables = s.tables ∧ c.save (c.entity.stamp id base) s₁ = (.ok record, s') := by
  have hobject : ∀ {data fields}, Record.ofJson data = .ok fields → data = .object fields := by
    intro data fields h
    cases data <;> cases h
    rfl
  cases change with
  | create freshId now data =>
    cases hd
    obtain ⟨fields, hfields, hsave⟩ := Collection.create_ok hrun
    exact ⟨fields, _, _, s, hobject hfields, fun _ _ h => h.put_string _ _, rfl, hsave⟩
  | replace now data =>
    cases hd
    obtain ⟨fields, id, hfields, -, hsave⟩ := Collection.replace_ok hrun
    exact ⟨fields, _, id, s, hobject hfields, fun _ _ h => h.put_string _ _, rfl, hsave⟩
  | update id data =>
    cases hd
    obtain ⟨changes, old, s₁, hchanges, -, hget, hsave⟩ := Collection.update_ok hrun
    have hs := c.reads_get "" id s
    rw [hget] at hs
    exact ⟨changes, _, id, s₁, hobject hchanges, fun ho _ h => h.merge ho, hs, hsave⟩
  | delete id => cases hd

/-- A change leaves the table of its entity there, with its key. -/
theorem keyed_run (change : Change) (h : s.Keyed c.entity) : (change.run c s).2.Keyed c.entity := by
  generalize hrun : change.run c s = o
  obtain ⟨outcome, s'⟩ := o
  cases outcome with
  | error cause =>
    have hs := change.allOrNothing_run c s cause (by rw [hrun])
    rw [hrun] at hs
    exact h.of_tables hs
  | ok record =>
    cases hd : change.data? with
    | some data =>
      obtain ⟨_, _, _, s₁, -, -, hs₁, hsave⟩ := saved hd hrun
      obtain ⟨t, ht, hkey, -⟩ := Collection.get_saved (h.of_tables hs₁) hsave
      exact ⟨t, ht, hkey⟩
    | none =>
      cases change with
      | delete id =>
        obtain ⟨s₁, _, -, hget, hdelete⟩ := Collection.delete_ok hrun
        have hs₁ := c.reads_get "" id s
        rw [hget] at hs₁
        obtain ⟨t₀, ht₀, hkey⟩ := h.of_tables hs₁
        obtain ⟨t, _, t', ht, htable, hs'⟩ := MemoryStore.delete_ok hdelete
        obtain rfl : t₀ = t := Option.some.inj (ht₀.symm.trans ht)
        exact ⟨t', by rw [hs', Fields.find_put, if_pos rfl], by rw [Table.delete_shape htable, hkey]⟩
      | _ => cases hd

end Change

namespace Collection

/-- A history leaves the table of the entity there, with its key. -/
theorem keyed_history (h : s.Keyed c.entity) (events : List Event) : (c.history s events).1.Keyed c.entity := by
  have hrun : ∀ (events : List Event) {s : MemoryStore} {log : List Entry}, s.Keyed c.entity →
      (events.foldl c.next (s, log)).1.Keyed c.entity := by
    intro events
    induction events with
    | nil => exact fun h => h
    | cons event events ih =>
      intro s log h
      cases event with
      | plan faults => exact ih h
      | call change => exact ih (change.keyed_run h)
  exact hrun events h

/-! ## Records that are stored -/

/--
**A required field of a stored record** is there if the collection sets it or the check has left it. After any history,
a change that brings data and succeeds has found every required field in the data, and has given a record with all of
them to the check; what is stored under the id of the record has those of them that the check has left, and the
collection's own. A list of fields leaves them all if it keeps others or lists them.
-/
theorem required_stored_iff (hs : s.Keyed c.entity) (events : List Event) (hd : change.data? = some data)
    (ho : data.Ordered) (hrun : (change.run c (c.history s events).1).1 = .ok record) :
    ∃ fields given checked id t,
      data = .object fields ∧ (∀ name ∈ c.entity.requiredFields, Record.Filled fields name ∧ given.Filled name) ∧
      c.check given = .ok checked ∧ record.find c.entity.sortField = some (.string id) ∧
      (change.run c (c.history s events).1).2.tables.find c.entity.table = some t ∧
      t.get (c.entity.key id) = .ok (some record.toItem) ∧
      (∀ name ∈ c.entity.requiredFields,
        record.toItem.Filled name ↔ name ∈ c.entity.ownNames ∨ checked.Filled name) ∧
      ∀ list : FieldList, c.check = (fun r => (list.check r).mapError .badFields) →
        ∀ name ∈ c.entity.requiredFields, record.toItem.Filled name ↔
          name ∈ c.entity.ownNames ∨ list.keepOthers = true ∨ name ∈ list.specs.map (·.name) := by
  generalize hs₁ : (c.history s events).1 = s₁ at hrun
  have hkeyed : s₁.Keyed c.entity := hs₁ ▸ keyed_history hs events
  obtain ⟨s₂, hrun⟩ : ∃ s₂, change.run c s₁ = (.ok record, s₂) := ⟨_, Prod.ext hrun rfl⟩
  obtain ⟨fields, base, id, s₃, rfl, hbase, hs₃, hsave⟩ := Change.saved hd hrun
  have hdemand := Entity.demandFields_ok_iff.1 (Change.demanded hd hrun)
  have hgiven : ∀ name ∈ c.entity.requiredFields, Record.Filled (c.entity.stamp id base) name := by
    intro name hname
    rw [Json.Ordered] at ho
    exact (hbase ho.1 name (hdemand name hname)).stamp c.entity id
  obtain ⟨t, ht, -, hget⟩ := get_saved (hkeyed.of_tables hs₃) hsave
  obtain ⟨checked, hchecked, rfl, -⟩ := save_put hsave
  have hsort : (c.entity.stamp id base).find c.entity.sortField = some (.string id) := by
    rw [Entity.stamp, Fields.find_put, if_pos rfl]
  have hown : c.entity.sortField ∈ c.entity.ownNames := List.mem_cons_of_mem _ List.mem_cons_self
  have hleft : ∀ name ∈ c.entity.requiredFields,
      Item.Filled (Record.toItem (Fields.merge checked (c.ownFields (c.entity.stamp id base)))) name ↔
        name ∈ c.entity.ownNames ∨ checked.Filled name := by
    intro name hname
    rw [Record.filled_toItem]
    exact filled_stored_iff (hgiven name hname) checked
  refine ⟨fields, c.entity.stamp id base, checked, id, t, rfl,
    fun name hname => ⟨hdemand name hname, hgiven name hname⟩, hchecked, by rw [find_stored hsort, if_pos hown],
    by rw [hrun, ht], hget, hleft, fun list hlist name hname => ?_⟩
  rw [hlist] at hchecked
  rw [hleft name hname, FieldList.filled_checked_iff (mapError_eq_ok.1 hchecked) (hgiven name hname)]

/-- A required field is listed and stays through an update, after an update that the store refused to put. -/
theorem required_stored_listed :
    let shape : TableShape := ⟨"t", ⟨⟨"pk", .text⟩, some ⟨"id", .text⟩⟩, []⟩
    let list : FieldList := { specs := [⟨"name", .string, true⟩] }
    let c : Collection :=
      { entity := { table := "t", partitionValue := "p", partitionField := "pk", requiredFields := ["name"] }
        check := fun r => (list.check r).mapError .badFields }
    let s : MemoryStore := ⟨[("t", .empty shape)], {}⟩
    let ann : Json := .object [("junk", .null), ("name", .string "ann")]
    let bob : Json := .object [("name", .string "bob")]
    let events : List Event :=
      [.call (.create "a" "1" ann), .plan { failures := [⟨.putItem, 1, .throttled⟩] }, .call (.update "a" bob)]
    ∃ record, ((Change.update "a" bob).run c (c.history s events).1).1 = .ok record ∧ record.toItem.Filled "name" := by
  intro shape list c s ann bob events
  have hrun : ((Change.update "a" bob).run c (c.history s events).1).1 =
      .ok [("createdAtDate", .string "1"), ("id", .string "a"), ("name", .string "bob"), ("pk", .string "p")] := by
    unfold events c list s shape ann bob
    cbv
  have ho : bob.Ordered := ⟨Fields.ordered_singleton _, trivial, trivial⟩
  obtain ⟨_, _, _, _, _, -, -, -, -, -, -, -, hlisted⟩ :=
    required_stored_iff (c := c) (s := s) ⟨_, rfl, rfl⟩ events rfl ho hrun
  exact ⟨_, hrun, (hlisted list rfl "name" List.mem_cons_self).2 (.inr (.inr List.mem_cons_self))⟩

/-- A record is created without its required name: the data has it, and the check drops it as a field not listed. -/
theorem required_dropped :
    let shape : TableShape := ⟨"t", ⟨⟨"featurePartition", .text⟩, some ⟨"id", .text⟩⟩, []⟩
    let list : FieldList := { specs := [⟨"amount", .number, false⟩] }
    let c : Collection :=
      { entity := { table := "t", partitionValue := "user", requiredFields := ["name"] }
        check := fun r => (list.check r).mapError .badFields }
    let s : MemoryStore := { tables := [("t", .empty shape)] }
    let data : Json := .object [("id", .string "1"), ("name", .string "ann")]
    let record : Record :=
      [("createdAtDate", .string "now"), ("featurePartition", .string "user"), ("id", .string "1")]
    (c.create "f" "now" data s).1 = .ok record ∧
      (∃ t, (c.create "f" "now" data s).2.tables.find "t" = some t ∧
        t.get (c.entity.key "1") = .ok (some record.toItem)) ∧
      ¬ ∀ name ∈ c.entity.requiredFields, record.toItem.Filled name := by
  intro shape list c s data record
  refine ⟨?_, ⟨⟨shape, [(.text "user", [(some (.text "1"), record.toItem)])]⟩, ?_, ?_⟩, fun h => ?_⟩
  · unfold c list s shape data record
    cbv
  · unfold c list s shape data record
    cbv
  · unfold c shape record
    cbv
  · obtain ⟨value, hfind, -⟩ := h "name" List.mem_cons_self
    cases hfind

end Collection

end RecordStore
