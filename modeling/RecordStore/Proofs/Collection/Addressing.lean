import RecordStore.Proofs.Collection.Sparing

/-!
# Created records and their ids

A record that is created has a text in its sort field, its own id or a fresh one. `Collection.Finds` says that under an
id a get returns a record, that it is there, and that it can be deleted; `Collection.Misses` says that all three are
refused for what they were asked.

**`Collection.created_found`**: a record that was created is found under its id, unless the id or the partition value of
the collection is blank. Then it is stored all the same, and missed (`Collection.created_missed`).
-/

namespace RecordStore

variable {c : Collection} {s s' : MemoryStore} {t : Table} {suffix id : String} {record : Record} {item : Item}

theorem Item.find_toRecord (name : String) : ∀ item : Item, item.toRecord.find name = (item.find name).map (·.toJson)
  | [] => rfl
  | (k, a) :: rest => by
    rw [toRecord_eq_map, List.map_cons, Fields.find_cons, Fields.find_cons, ← toRecord_eq_map, find_toRecord name rest]
    split <;> rfl

/-- A record has a field just if its item has the attribute. -/
theorem Item.has_toRecord (item : Item) (name : String) : item.toRecord.has name = item.has name := by
  rw [Fields.has, Fields.has, find_toRecord, Option.isSome_map]

/-- A projection that keeps some attributes can be read. -/
theorem Projects.parse {names : NameAliases} {text : Option String} {fields : List String}
    (h : Projects names text fields) : ∃ paths, MemoryStore.parseOptional Path.parseList text = .ok paths := by
  cases h with
  | all => exact ⟨none, rfl⟩
  | fields _ hparse _ _ => exact ⟨some _, by rw [MemoryStore.parseOptional, hparse]; rfl⟩

namespace Collection

/-! ## Reading one field -/

/-- A projection on some fields keeps just these. -/
theorem projection_projects (hsuffix : ∀ ch ∈ suffix.toList, ch.isAlphanum = true) {fields : List String}
    (hn : fields.length < Numeral.natBound) (c : Collection) :
    ∃ projection, c.projection suffix (some fields) = .ok projection ∧
      Projects projection.names projection.projection fields := by
  obtain ⟨projection, a, hprojection⟩ : ∃ projection a,
      Compile.definition c.settings.refuseUnknown {} fields ⟨0, suffix⟩ = (.ok projection, a) := ⟨_, _, rfl⟩
  refine ⟨projection, ?_, ?_⟩
  · rw [Collection.projection, compile, Option.getD_some, hprojection]
    rfl
  · have hcount : 0 + (Definition.aliasCount {} + fields.length) < Numeral.natBound := by
      have hnone : Definition.aliasCount {} = 0 := rfl
      omega
    exact Compile.definition_projects (wordy_of_alphanumeric hsuffix) hcount hprojection (Fields.Within.refl _)

/-! ## Records that are found -/

/-- A record that a table has at the place of its id, in a collection where neither part of this place is blank. -/
structure Placed (c : Collection) (t : Table) (id : String) (record : Record) : Prop where
  fields : c.entity.partitionField ≠ c.entity.sortField
  valueText : Text.isBlankText c.entity.partitionValue = false
  idText : Text.isBlankText id = false
  shape : t.shape.key = c.entity.keyShape
  normal : record.Normal
  stamped : c.entity.Stamped id record
  found : t.at? (c.entity.address id) = some record.toItem

theorem Placed.get (h : c.Placed t id record) (hf : s.faults.failures = [])
    (ht : s.tables.find c.entity.table = some t) (suffix : String) :
    (c.get suffix id none s).1 = .ok (some record) := by
  rw [get_found h.fields h.valueText h.idText ht h.shape, MemoryStore.note_of_no_failures hf, h.found, Option.map_some,
    Record.toRecord_toItem h.normal]
  rfl

/-- One field of a record is read from its item. -/
theorem Placed.get_field (h : c.Placed t id record) (hsuffix : ∀ ch ∈ suffix.toList, ch.isAlphanum = true)
    (hf : s.faults.failures = []) (ht : s.tables.find c.entity.table = some t) (field : String) :
    (c.get suffix id (some [field]) s).1 = .ok (some (record.toItem.only [field]).toRecord) := by
  have hone : [field].length < Numeral.natBound := by rw [List.length_singleton]; decide
  obtain ⟨projection, hprojection, hprojects⟩ := c.projection_projects hsuffix hone
  obtain ⟨paths, hpaths⟩ := hprojects.parse
  have ho : Fields.Ordered record.toItem := Record.ordered_toItem (Record.normal_iff.1 h.normal).1
  have hkept : MemoryStore.projected projection.names paths record.toItem = record.toItem.only [field] :=
    hprojects.output (w := { projection := paths, names := projection.names }) hpaths ho
  have hfound : t.get (c.entity.key id) = .ok (some record.toItem) :=
    (Table.get_eq (Entity.address_key h.fields h.shape id)).trans (congrArg _ h.found)
  have hget := MemoryStore.get_projected
    (r := ⟨c.entity.table, c.entity.key id, none, projection.projection, projection.names⟩) hpaths ht hfound
  rw [MemoryStore.note_of_no_failures hf, Option.map_some, hkept] at hget
  rw [Collection.get, requireTexts_key h.valueText h.idText, hprojection]
  show ((ofStore (MemoryStore.get
    ⟨c.entity.table, c.entity.key id, none, projection.projection, projection.names⟩) >>= fun response =>
    pure (response.item.map Item.toRecord)) s).1 = _
  rw [Call.bind_eq, ofStore_eq, hget]
  rfl

theorem Placed.exists? (h : c.Placed t id record) (hsuffix : ∀ ch ∈ suffix.toList, ch.isAlphanum = true)
    (hf : s.faults.failures = []) (ht : s.tables.find c.entity.table = some t) :
    (c.exists? suffix id s).1 = .ok true := by
  rw [Collection.exists?, Call.bind_of_ok (h.get_field hsuffix hf ht c.entity.sortField)]
  show Except.ok (Fields.has (Item.toRecord _) _) = _
  rw [Item.has_toRecord, Item.has_only _ fun _ => List.mem_singleton_self _, Fields.has, Record.toItem,
    Attribute.find_ofJsonFields, h.stamped.2]
  rfl

/-- A record can be deleted, and is not there after that. -/
theorem Placed.delete (h : c.Placed t id record) (hf : s.faults.failures = [])
    (ht : s.tables.find c.entity.table = some t) :
    ∃ s', c.delete id s = (.ok record, s') ∧
      ∀ (faults : Faults) (suffix : String), faults.failures = [] →
        (c.get suffix id none { s' with faults }).1 = .ok none := by
  have haddress := Entity.address_key h.fields h.shape id
  obtain ⟨t', hdelete⟩ := Table.exists_delete haddress
  -- the record is read first, and this leaves the table as it is
  generalize hs₁ : (c.get "" id none s).2 = s₁
  have ht₁ : s₁.tables.find c.entity.table = some t := by rw [← hs₁, c.reads_get "" id s, ht]
  have hf₁ : s₁.faults.failures = [] := by
    rw [← hs₁, get_eq (requireTexts_key h.valueText h.idText), MemoryStore.get, MemoryStore.record_ask]
    exact MemoryStore.failures_of_no_failures hf .getItem
  obtain ⟨hdone, htables⟩ := MemoryStore.delete_eq (r := ⟨c.entity.table, c.entity.key id⟩) hf₁ ht₁ hdelete
  refine ⟨(MemoryStore.delete ⟨c.entity.table, c.entity.key id⟩ s₁).2, ?_, fun faults suffix hfaults => ?_⟩
  · rw [Collection.delete, checkId_of_not_blank h.idText]
    show (c.get "" id none >>= fun found => _) _ = _
    rw [Call.bind_of_ok (h.get hf ht ""), hs₁]
    show (ofStore (MemoryStore.delete ⟨c.entity.table, c.entity.key id⟩) >>= fun _ => pure record) s₁ = _
    rw [Call.bind_eq, ofStore_eq, hdone]
    rfl
  · have ht' : ({ (MemoryStore.delete ⟨c.entity.table, c.entity.key id⟩ s₁).2 with faults } : MemoryStore).tables.find
        c.entity.table = some t' := by
      rw [htables, Fields.find_put, if_pos rfl]
    have hshape' : t'.shape.key = c.entity.keyShape := by rw [Table.delete_shape hdelete, h.shape]
    rw [get_found h.fields h.valueText h.idText ht' hshape', MemoryStore.note_of_no_failures hfaults,
      Table.at?_delete hdelete haddress, if_pos (Entity.sameAddress_iff.2 rfl)]
    rfl

/-- Under an id a record is read, is there and is deleted, unless the store fails. -/
structure Finds (c : Collection) (s : MemoryStore) (id : String) (record : Record) : Prop where
  read : ∀ (faults : Faults) (suffix : String), faults.failures = [] →
    (c.get suffix id none { s with faults }).1 = .ok (some record)
  there : ∀ (faults : Faults) (suffix : String), faults.failures = [] → (∀ ch ∈ suffix.toList, ch.isAlphanum = true) →
    (c.exists? suffix id { s with faults }).1 = .ok true
  deleted : ∀ faults : Faults, faults.failures = [] → ∃ s', c.delete id { s with faults } = (.ok record, s') ∧
    ∀ (faults : Faults) (suffix : String), faults.failures = [] → (c.get suffix id none { s' with faults }).1 = .ok none

/-- **A record at the place of its id** is found. -/
theorem Placed.finds (h : c.Placed t id record) (ht : s.tables.find c.entity.table = some t) : c.Finds s id record where
  read faults suffix hf := h.get (s := { s with faults }) hf ht suffix
  there faults _ hf hsuffix := h.exists? (s := { s with faults }) hsuffix hf ht
  deleted faults hf := h.delete (s := { s with faults }) hf ht

/-! ## Records that are missed -/

/-- Under an id nothing is read, is there or is deleted: the caller is refused, and the store left as it is. -/
structure Misses (c : Collection) (s : MemoryStore) (id : String) : Prop where
  read : ∀ (faults : Faults) (suffix : String), ∃ e, e.isValidation = true ∧
    c.get suffix id none { s with faults } = (.error e, { s with faults })
  there : ∀ (faults : Faults) (suffix : String), ∃ e, e.isValidation = true ∧
    c.exists? suffix id { s with faults } = (.error e, { s with faults })
  deleted : ∀ faults : Faults, ∃ e, e.isValidation = true ∧
    c.delete id { s with faults } = (.error e, { s with faults })

/-- A get under a blank id, or in a blank partition, is refused. -/
theorem get_of_blank (h : Text.isBlankText c.entity.partitionValue = true ∨ Text.isBlankText id = true)
    (suffix : String) (fields : Option (List String)) (s : MemoryStore) :
    ∃ e, e.isValidation = true ∧ c.get suffix id fields s = (.error e, s) := by
  obtain ⟨labels, hrefused⟩ : ∃ labels, AccessError.requireTexts
      [("PartitionKey", c.entity.partitionValue), ("Id", id)] = .error (.misuse (.blank labels)) := by
    apply requireTexts_of_blank
    rcases h with h | h
    · exact ⟨_, List.mem_cons_self, h⟩
    · exact ⟨_, List.mem_cons_of_mem _ List.mem_cons_self, h⟩
  refine ⟨.misuse (.blank labels), rfl, ?_⟩
  rw [get, hrefused]
  rfl

/-- **Under a blank id**, or in a blank partition, nothing is found. -/
theorem misses_of_blank
    (h : Text.isBlankText c.entity.partitionValue = true ∨ Text.isBlankText id = true) (s : MemoryStore) :
    c.Misses s id where
  read faults suffix := get_of_blank h suffix none _
  there faults suffix := by
    obtain ⟨e, he, hget⟩ := get_of_blank h suffix (some [c.entity.sortField]) { s with faults }
    refine ⟨e, he, ?_⟩
    rw [exists?, Call.bind_eq, hget]
  deleted faults := by
    cases hid : Text.isBlankText id with
    | true =>
      obtain ⟨labels, hrefused⟩ : ∃ labels, checkId id = .error (.misuse (.blank labels)) :=
        requireTexts_of_blank ⟨_, List.mem_cons_self, hid⟩
      refine ⟨.misuse (.blank labels), rfl, ?_⟩
      rw [delete, hrefused]
      rfl
    | false =>
      obtain ⟨e, he, hget⟩ := get_of_blank h "" none { s with faults }
      refine ⟨e, he, ?_⟩
      rw [delete, checkId_of_not_blank hid]
      show (c.get "" id none >>= fun found => _) _ = _
      rw [Call.bind_eq, hget]

/-! ## Records that were created -/

/--
**A record that was created** has a text in its sort field and is stored under this id. There it is found, unless the id
or the partition value of the collection is blank; then all is refused that asks for it.
-/
theorem created_found {freshId now : String} {data : Json} (hne : c.entity.partitionField ≠ c.entity.sortField)
    (hcheck : c.KeepsNormal) (hdata : data.Ordered) (ht : s.tables.find c.entity.table = some t)
    (hkey : t.shape.key = c.entity.keyShape) (hcreate : c.create freshId now data s = (.ok record, s')) :
    ∃ id, record.find c.entity.sortField = some (.string id) ∧
      (∃ t', s'.tables.find c.entity.table = some t' ∧ t'.at? (c.entity.address id) = some record.toItem) ∧
      (Text.isBlankText c.entity.partitionValue = false → Text.isBlankText id = false → c.Finds s' id record) ∧
      (Text.isBlankText c.entity.partitionValue = true ∨ Text.isBlankText id = true → c.Misses s' id) := by
  obtain ⟨fields, hfields, hsave⟩ := create_ok hcreate
  have hfieldsn := Record.normal_ofJson hdata hfields
  generalize (c.entity.id? fields).getD freshId = id at hsave
  obtain ⟨hstored, hstamped, t₀, old, t', ht₀, hput, hs⟩ := save_ok hcheck
    (Entity.normal_stamp (hfieldsn.put (Json.ordered_string now)) id) (Entity.stamped_stamp hne _ _) hsave
  obtain rfl : t₀ = t := Option.some.inj (ht₀.symm.trans ht)
  have ht' : s'.tables.find c.entity.table = some t' := by rw [hs, Fields.find_put, if_pos rfl]
  have hkey' : t'.shape.key = c.entity.keyShape := by rw [Table.put_shape hput, hkey]
  have hat : t'.at? (c.entity.address id) = some record.toItem := by
    rw [Table.at?_put hput (hstamped.address hkey), if_pos (Entity.sameAddress_iff.2 rfl)]
  refine ⟨id, hstamped.2, ⟨t', ht', hat⟩, fun hvalue hid => ?_, fun h => misses_of_blank h s'⟩
  exact Placed.finds ⟨hne, hvalue, hid, hkey', hstored, hstamped, hat⟩ ht'

/-- An id of letters beyond ASCII behind a blank, in a table with another record, and a check that takes the id away. -/
theorem created_found_padded :
    let shape : TableShape := ⟨"t", ⟨⟨"pk", .text⟩, some ⟨"id", .text⟩⟩, []⟩
    let t : Table :=
      ⟨shape, [(.text "user", [(some (.text "1"), [("id", .text "1"), ("pk", .text "user")])])]⟩
    let c : Collection :=
      { entity := { table := "t", partitionValue := "user", partitionField := "pk" }
        check := fun record => .ok (Fields.put "id" .null record) }
    let s : MemoryStore := { tables := [("t", t)] }
    let data : Json := .object [("id", .string " été"), ("n", .number (.whole 5))]
    ∃ record s', c.create "f" "now" data s = (.ok record, s') ∧ record.find "id" = some (.string " été") ∧
      c.Finds s' " été" record := by
  intro shape t c s data
  have hcheck : c.KeepsNormal := by
    intro record checked hn h
    cases h
    exact hn.put trivial
  have hdata : data.Ordered :=
    ⟨List.pairwise_map.1 (show ["id", "n"].Pairwise (· < ·) by decide), trivial, rfl, trivial⟩
  have hrecord : (c.create "f" "now" data s).1 = .ok [("createdAtDate", .string "now"), ("id", .string " été"),
      ("n", .number (.whole 5)), ("pk", .string "user")] := by
    unfold c s data t shape
    cbv
  obtain ⟨s', hcreate⟩ : ∃ s', c.create "f" "now" data s = (.ok _, s') := ⟨_, Prod.ext hrecord rfl⟩
  obtain ⟨id, hid, -, hfinds, -⟩ := created_found (by decide) hcheck hdata rfl rfl hcreate
  cases hid
  exact ⟨_, _, hcreate, rfl, hfinds (by decide) (by decide)⟩

/-- A record is created under an id of one blank, and is missed. -/
theorem created_missed :
    let shape : TableShape := ⟨"t", ⟨⟨"featurePartition", .text⟩, some ⟨"id", .text⟩⟩, []⟩
    let c : Collection := { entity := { table := "t", partitionValue := "user" } }
    let s : MemoryStore := { tables := [("t", .empty shape)] }
    let s' := (c.create "f" "now" (.object [("id", .string " ")]) s).2
    (∃ record, (c.create "f" "now" (.object [("id", .string " ")]) s).1 = .ok record ∧
      record.find "id" = some (.string " ")) ∧ s'.tableSize "t" = 1 ∧
      (c.get "" " " none s').1 = .error (.misuse (.blank ["Id"])) ∧
      (c.exists? "" " " s').1 = .error (.misuse (.blank ["Id"])) ∧
      (c.delete " " s').1 = .error (.misuse (.blank ["Id"])) := by
  intro shape c s s'
  have hcreate : (c.create "f" "now" (.object [("id", .string " ")]) s).1 =
      .ok [("createdAtDate", .string "now"), ("featurePartition", .string "user"), ("id", .string " ")] := by
    unfold c s shape
    cbv
  refine ⟨⟨_, hcreate, rfl⟩, ?_, ?_, ?_, ?_⟩ <;> (unfold s' c s shape; cbv)

end Collection

end RecordStore
