import RecordStore.Proofs.Attribute.Rewriting
import RecordStore.Proofs.Collection.Addressing

/-!
# Merging changes

An update reads the record with an id, sets the fields that its data names and stores the whole record again. So what is
not named is read as a document and stored again too.

* **`Collection.update_merges`**: what is named is stored as its attribute, and nothing is added; what is not named
  becomes what a document makes of it, which is the same attribute if that is a plain one;
* **`Collection.update_rewrites_set`** is an update that turns a set that it does not name into a list.
-/

namespace RecordStore

namespace Collection

variable {c : Collection} {s s' : MemoryStore} {t : Table} {suffix id : String}

/-- A record that was read is what its table has at its place, and the tables are as before. -/
theorem found_of_get (hne : c.entity.partitionField ≠ c.entity.sortField) (hkey : t.shape.key = c.entity.keyShape)
    (ht : s.tables.find c.entity.table = some t) {found : Option Record}
    (h : c.get suffix id none s = (.ok found, s')) :
    found = (t.at? (c.entity.address id)).map Item.toRecord ∧ s'.tables = s.tables := by
  obtain ⟨_, htexts, -⟩ := Call.bind_ofExcept_ok h
  have htables := c.reads_get suffix id s
  rw [h] at htables
  refine ⟨?_, htables⟩
  rw [get_eq htexts, MemoryStore.get_eq rfl ht (Table.get_eq (Entity.address_key hne hkey id))] at h
  obtain ⟨hfound, -⟩ := Prod.mk.inj h
  obtain ⟨response, hresponse, hfound⟩ := bind_eq_ok.1 hfound
  obtain ⟨_, -, hresponse⟩ := bind_eq_ok.1 (mapError_eq_ok.1 hresponse)
  cases hresponse
  exact (Except.ok.inj hfound).symm

/-- An attribute of the item that is stored when data is merged into another and nothing is checked, key fields
aside. -/
theorem find_merged {changes merged : Record} {old : Item} {name : String} (hchanges : Fields.Ordered changes)
    (hmerged : merged = c.entity.stamp id (Fields.merge old.toRecord changes)) (hp : name ≠ c.entity.partitionField)
    (hs : name ≠ c.entity.sortField) :
    (Record.toItem (Fields.merge merged (c.ownFields merged))).find name =
      ((changes.find name).or ((old.find name).map Attribute.toJson)).map Attribute.ofJson := by
  have hstored : Fields.find (Fields.merge merged (c.ownFields merged)) name = merged.find name := by
    -- what is set once more after the check is what was there before it
    rw [Fields.find_merge_of_agree (c.ownFields_agree merged), ite_self]
  rw [Record.toItem, Attribute.find_ofJsonFields, hstored, hmerged, Entity.stamp, Fields.find_put,
    if_neg (Ne.symm hs), Fields.find_put, if_neg (Ne.symm hp), Fields.find_merge hchanges, Item.find_toRecord]

/-- An update that succeeds has merged its data into the record at the place of the id, and stored that there. -/
theorem update_stored {data : Json} {stored : Record} (hkey : t.shape.key = c.entity.keyShape)
    (hne : c.entity.partitionField ≠ c.entity.sortField) (ht : s.tables.find c.entity.table = some t)
    (h : c.update id data s = (.ok stored, s')) : ∃ changes old t', Record.ofJson data = .ok changes ∧
      t.get (c.entity.key id) = .ok (some old) ∧ t'.get (c.entity.key id) = .ok (some stored.toItem) ∧
      s'.tables = Fields.put c.entity.table t' s.tables ∧
      ∃ checked, c.check (c.entity.stamp id (Fields.merge old.toRecord changes)) = .ok checked ∧
        stored = Fields.merge checked (c.ownFields (c.entity.stamp id (Fields.merge old.toRecord changes))) := by
  obtain ⟨changes, record, s₁, hchanges, -, hget, hsave⟩ := update_ok h
  obtain ⟨hfound, htables⟩ := found_of_get hne hkey ht hget
  obtain ⟨old, hold, rfl⟩ := Option.map_eq_some_iff.1 hfound.symm
  obtain ⟨checked, hchecked, rfl, t₁, _, t', ht₁, hput, hs'⟩ := save_put hsave
  rw [htables] at ht₁ hs'
  obtain rfl : t = t₁ := Option.some.inj (ht.symm.trans ht₁)
  have hplace := Entity.address_key hne hkey id
  have hstamped := stamped_merge (Entity.stamped_stamp hne id (Fields.merge old.toRecord changes)) checked
  have haddress := hstamped.address hkey
  refine ⟨changes, old, t', hchanges, (Table.get_eq hplace).trans (congrArg Except.ok hold), ?_, hs', checked, hchecked,
    rfl⟩
  exact (Table.get_put hput haddress hplace).trans (congrArg Except.ok (if_pos (Entity.sameAddress_iff.2 rfl)))

/--
**An update merges its data** into the item with its id, in a collection without a check of its own. Key fields aside,
an attribute that the data names is what the data has there, and one that it does not name is there if it was before. It
is then what a document makes of what it was (`Attribute.Rewritten`), and just the same if it was a plain one.
-/
theorem update_merges {data : Json} {stored : Record} (hcheck : ∀ record, c.check record = .ok record)
    (hkey : t.shape.key = c.entity.keyShape) (hne : c.entity.partitionField ≠ c.entity.sortField)
    (ht : s.tables.find c.entity.table = some t) (hdata : data.Ordered)
    (h : c.update id data s = (.ok stored, s')) :
    ∃ (changes : Record) (t' : Table) (old new : Item), data = .object changes ∧
      s'.tables = Fields.put c.entity.table t' s.tables ∧ t.get (c.entity.key id) = .ok (some old) ∧
      t'.get (c.entity.key id) = .ok (some new) ∧
      ∀ name, name ≠ c.entity.partitionField → name ≠ c.entity.sortField →
        (∀ j, changes.find name = some j → new.find name = some (.ofJson j)) ∧
        (changes.find name = none → Option.Rel Attribute.Rewritten (old.find name) (new.find name) ∧
          ∀ a, old.find name = some a → a.Plain → new.find name = some a) := by
  obtain ⟨changes, old, t', hchanges, hold, hnew, hs', checked, hchecked, rfl⟩ := update_stored hkey hne ht h
  obtain rfl := Except.ok.inj ((hcheck _).symm.trans hchecked)
  obtain ⟨hordered, -⟩ := Record.normal_iff.1 (Record.normal_ofJson hdata hchanges)
  have hobject : data = .object changes := by
    cases data <;> cases hchanges
    rfl
  refine ⟨changes, t', old, _, hobject, hs', hold, hnew, fun name hp hs => ?_⟩
  rw [find_merged hordered rfl hp hs]
  refine ⟨fun j hj => by rw [hj]; rfl, fun hnone => ?_⟩
  rw [hnone, Option.none_or, Option.map_map]
  cases old.find name with
  | none => exact ⟨.none, nofun⟩
  | some a =>
    refine ⟨.some (Attribute.rewritten a), fun a' ha' hplain => ?_⟩
    cases ha'
    exact congrArg some (Attribute.ofJson_toJson hplain)

/-- An item with a set, bytes, a null marker that is not set and a map with a list in it, none of which is named. -/
theorem update_merges_nested :
    let shape : TableShape := ⟨"t", ⟨⟨"pk", .text⟩, some ⟨"id", .text⟩⟩, []⟩
    let c : Collection := { entity := { table := "t", partitionValue := "p", partitionField := "pk" } }
    let deep : Attribute := .map [("k", .list [.number "-1", .null true])]
    let item : Item := [("bytes", .binary [1]), ("deep", deep), ("id", .text "1"), ("named", .number "2"),
      ("none", .null false), ("pk", .text "p"), ("tags", .texts ["x", "y"])]
    let s : MemoryStore := ⟨[("t", ⟨shape, [(.text "p", [(some (.text "1"), item)])]⟩)], {}⟩
    let data : Json := .object [("added", .null), ("named", .string "z")]
    (c.update "1" data s).1.isOk = true ∧ ∃ (t' : Table) (new : Item),
      (c.update "1" data s).2.tables.find "t" = some t' ∧ t'.get (c.entity.key "1") = .ok (some new) ∧
      new.find "named" = some (.text "z") ∧ new.find "added" = some (.null true) ∧ new.find "deep" = some deep ∧
      new.find "tags" = some (.list [.text "x", .text "y"]) ∧ new.find "bytes" = some (.text "AQ==") ∧
      new.find "none" = some (.null true) ∧ new.find "other" = none := by
  intro shape c deep item s data
  have hok : (c.update "1" data s).1.isOk = true := by
    unfold s data item deep c shape
    cbv
  obtain ⟨stored, hstored⟩ : ∃ stored, (c.update "1" data s).1 = .ok stored := by
    cases hrun : (c.update "1" data s).1 with
    | ok stored => exact ⟨stored, rfl⟩
    | error e =>
      rw [hrun] at hok
      cases hok
  have hupdate : c.update "1" data s = (.ok stored, (c.update "1" data s).2) := Prod.ext hstored rfl
  have hdata : data.Ordered := by
    simp only [data, Json.Ordered, Json.OrderedFields]
    exact ⟨List.pairwise_map.1 (show ["added", "named"].Pairwise (· < ·) by decide), trivial, trivial, trivial⟩
  have hplain : deep.Plain := by
    have hprinted : Attribute.IsPrinted "-1" := ⟨.whole (-1), show JsonNumber.fits (-1) = true by decide, by decide⟩
    simp only [deep, Attribute.Plain, Attribute.PlainItems, Attribute.PlainFields]
    exact ⟨⟨hprinted, trivial, trivial⟩, trivial⟩
  have hget : (⟨shape, [(.text "p", [(some (.text "1"), item)])]⟩ : Table).get (c.entity.key "1") =
      .ok (some item) := by
    unfold item deep c shape
    cbv
  obtain ⟨changes, t', old, new, hchanges, htables, hold, hnew, hfields⟩ :=
    update_merges (c := c) (t := ⟨shape, [(.text "p", [(some (.text "1"), item)])]⟩) (fun _ => rfl) rfl (by decide) rfl
      hdata hupdate
  obtain rfl := Json.object.inj hchanges
  obtain rfl : item = old := Option.some.inj (Except.ok.inj (hget.symm.trans hold))
  have htags : Option.Rel Attribute.Rewritten (some (.texts ["x", "y"])) (new.find "tags") :=
    ((hfields "tags" (by decide) (by decide)).2 rfl).1
  have hbytes : Option.Rel Attribute.Rewritten (some (.binary [1])) (new.find "bytes") :=
    ((hfields "bytes" (by decide) (by decide)).2 rfl).1
  have hnone : Option.Rel Attribute.Rewritten (some (.null false)) (new.find "none") :=
    ((hfields "none" (by decide) (by decide)).2 rfl).1
  have hother : Option.Rel Attribute.Rewritten none (new.find "other") :=
    ((hfields "other" (by decide) (by decide)).2 rfl).1
  refine ⟨hok, t', new, by rw [htables, Fields.find_put]; rfl, hnew, (hfields "named" (by decide) (by decide)).1 _ rfl,
    (hfields "added" (by decide) (by decide)).1 _ rfl,
    ((hfields "deep" (by decide) (by decide)).2 rfl).2 deep rfl hplain, ?_, ?_, ?_, ?_⟩
  · generalize new.find "tags" = found at htags
    cases htags with
    | some h =>
      cases h
      rfl
  · generalize new.find "bytes" = found at hbytes
    cases hbytes with
    | some h =>
      cases h
      decide
  · generalize new.find "none" = found at hnone
    cases hnone with
    | some h =>
      cases h
      rfl
  · generalize new.find "other" = found at hother
    cases hother
    rfl

/-- A set that the data of an update does not name is not what it was: it is a list. -/
theorem update_rewrites_set :
    ¬ ∀ (c : Collection) (t t' : Table) (s s' : MemoryStore) (id : String) (changes stored : Record) (old new : Item),
      (∀ record, c.check record = .ok record) → t.shape.key = c.entity.keyShape →
      c.entity.partitionField ≠ c.entity.sortField → s.tables.find c.entity.table = some t →
      (Json.object changes).Ordered → c.update id (.object changes) s = (.ok stored, s') →
      t.get (c.entity.key id) = .ok (some old) → s'.tables.find c.entity.table = some t' →
      t'.get (c.entity.key id) = .ok (some new) →
      ∀ name, name ≠ c.entity.partitionField → name ≠ c.entity.sortField → changes.find name = none →
        new.find name = old.find name := by
  intro h
  let shape : TableShape := ⟨"t", ⟨⟨"pk", .text⟩, some ⟨"id", .text⟩⟩, []⟩
  let c : Collection := { entity := { table := "t", partitionValue := "p", partitionField := "pk" } }
  let item (tags : Attribute) : Item := [("id", .text "1"), ("pk", .text "p"), ("tags", tags)]
  let table (tags : Attribute) : Table := ⟨shape, [(.text "p", [(some (.text "1"), item tags)])]⟩
  let s : MemoryStore := ⟨[("t", table (.texts ["x"]))], {}⟩
  have hok : (c.update "1" (.object []) s).1 = .ok (item (.texts ["x"])).toRecord := by
    unfold s table item c shape
    cbv
  have htable : (c.update "1" (.object []) s).2.tables = [("t", table (.list [.text "x"]))] := by
    unfold s table item c shape
    cbv
  have hupdate : c.update "1" (.object []) s =
    (.ok (item (.texts ["x"])).toRecord, (c.update "1" (.object []) s).2) := Prod.ext hok rfl
  have hget (tags : Attribute) : (table tags).get (c.entity.key "1") = .ok (some (item tags)) := by
    unfold table item c shape
    cbv
  have hnormal : (Json.object []).Ordered := by
    rw [Json.Ordered, Json.OrderedFields]
    exact ⟨Fields.ordered_nil, trivial⟩
  have hsame := h c _ _ s _ "1" [] _ _ _ (fun _ => rfl) rfl (by decide) rfl hnormal hupdate (hget _)
    (by rw [htable]; rfl) (hget _) "tags" (by decide) (by decide) rfl
  cases hsame

end Collection

end RecordStore
