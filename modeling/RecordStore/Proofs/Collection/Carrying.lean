import RecordStore.Proofs.Collection.Asking

/-!
# What an index carries

An index that carries only some fields carries the key fields of the table and its own besides
(`EntityIndex.carriedNames`). A query by it that does not say which fields it asks for returns just these of each item
(`PageQuery.mem_fields_carried`). One that asks for an empty list of fields returns whole items, as a query by the keys
of the table does, and so also what the index does not carry.

**`Collection.index_shows_carried`** says when the records of an index query are what the index carries, and
`Collection.index_shows_whole` that they need not be.
-/

namespace RecordStore

open Call (Relates)
open MemoryStore (Twins)

/-- The names of the fields that an index carries of an item of an entity, if it does not carry all. -/
def EntityIndex.carriedNames (i : EntityIndex) (e : Entity) : List String :=
  e.keyFields ++ [i.partitionField, i.sortField] ++ i.carriedFields

/-- A record has of an item all attributes of some names, with their values, and no others. -/
structure Record.Carries (names : List String) (item : Item) (record : Record) : Prop where
  only : ∀ name, record.has name = true → name ∈ names
  every : ∀ name ∈ names, record.find name = (item.find name).map (·.toJson)

variable {e : Entity} {i : EntityIndex} {names fields : List String} {item : Item}

/-- The record of the fields asked for has these of the item and no others. -/
theorem Record.carries_only (hne : fields ≠ []) (h : ∀ name, name ∈ fields ↔ name ∈ names) :
    Carries names item (item.toRecord.only fields) := by
  have hfind : ∀ name, (item.toRecord.only fields).find name =
      if name ∈ names then (item.find name).map (·.toJson) else none := by
    intro name
    rw [only, if_neg (by simpa using hne), Fields.find_restrict, Item.find_toRecord, if_congr (h name) rfl rfl]
  refine ⟨fun name hhas => ?_, fun name hname => by rw [hfind, if_pos hname]⟩
  by_contra hnot
  rw [Fields.has, hfind, if_neg hnot] at hhas
  cases hhas

/-- The record of a whole item has nothing but what is carried if the item has not. -/
theorem Record.carries_whole_iff :
    Carries names item item.toRecord ↔ ∀ name, item.has name = true → name ∈ names := by
  simp only [← Item.has_toRecord]
  exact ⟨fun h => h.only, fun h => ⟨h, fun name _ => Item.find_toRecord name item⟩⟩

namespace PageQuery

/-- **A query that does not say which fields** shows those that its index carries. -/
theorem mem_fields_carried {q : IndexQuery} (hi : (e.indexes.find? fun i => i.name = q.index) = some i)
    (hcarries : i.carriedFields ≠ []) (hq : q.fields = none) :
    (byIndex q).fields e ≠ [] ∧ ∀ name, name ∈ (byIndex q).fields e ↔ name ∈ i.carriedNames e := by
  have hfields : (byIndex q).fields e = (Collection.carriedBy i (Collection.indexKeyFields e i)).getD [] := by
    simp only [PageQuery.fields, hq, hi]
    rfl
  have hkey : e.partitionField ∈ Collection.indexKeyFields e i :=
    Collection.mem_indexKeyFields.2 List.mem_cons_self
  have hempty : ¬ i.carriedFields.isEmpty = true := by simpa using hcarries
  -- a carried field that is a key field of the index is among those anyway
  have hsame : ∀ name, name ∈ i.carriedNames e ↔ name ∈ Collection.indexKeyFields e i ∨
      name ∈ i.carriedFields.filter fun f => f ≠ i.partitionField ∧ f ≠ i.sortField := by
    intro name
    rw [EntityIndex.carriedNames, List.mem_append, ← Collection.mem_indexKeyFields, List.mem_filter]
    refine ⟨fun h => ?_, fun h => h.imp_right And.left⟩
    by_cases hown : name = i.partitionField ∨ name = i.sortField
    · refine .inl (Collection.mem_indexKeyFields.2 (List.mem_append_right _ ?_))
      simpa using hown
    · exact h.imp_right fun hmem => ⟨hmem, by simpa [not_or] using hown⟩
  rw [hfields, Collection.carriedBy, EntityIndex.carries, if_neg hempty]
  generalize (i.carriedFields.filter fun f => f ≠ i.partitionField ∧ f ≠ i.sortField) = own at hsame
  cases own with
  | nil => exact ⟨List.ne_nil_of_mem hkey, fun name => by simpa using (hsame name).symm⟩
  | cons f own =>
    refine ⟨List.ne_nil_of_mem (List.mem_append_left _ hkey), fun name => ?_⟩
    rw [hsame]
    exact List.mem_append

end PageQuery

namespace Collection

variable {c : Collection} {s : MemoryStore} {t : Table} {suffix : String} {shape : TableShape}

/-- Records are those that an index query finds: of stored items that it looks for. Each is the whole item if an empty
list of fields was asked for, and it is what the index carries of its item unless that was so and the item has more. -/
def ShowsCarried (c : Collection) (t : Table) (i : EntityIndex) (q : IndexQuery) (records : List Record) : Prop :=
  ∀ record ∈ records, ∃ item ∈ t.items, q.wants i item = true ∧ (q.fields = some [] → record = item.toRecord) ∧
    (record.Carries (i.carriedNames c.entity) item ↔
      (q.fields = some [] → ∀ name, item.has name = true → name ∈ i.carriedNames c.entity))

/-- Records of whole items, of which the fields are shown that the query asks for. -/
theorem ShowsStored.carried {q : IndexQuery} {page : PageOfRecords} (h : c.ShowsStored t (.byIndex q) page)
    (hi : (c.entity.indexes.find? fun i => i.name = q.index) = some i) (hcarries : i.carriedFields ≠ [])
    (hq : q.fields.getD [] = []) :
    c.ShowsCarried t i q (page.only ((PageQuery.byIndex q).fields c.entity)).items := by
  obtain ⟨items, hitems, hpage⟩ := h
  intro record hrecord
  rw [PageOfRecords.only, hpage, List.map_map] at hrecord
  obtain ⟨item, hmem, rfl⟩ := List.mem_map.1 hrecord
  obtain ⟨hstored, hwants⟩ := hitems item hmem
  refine ⟨item, hstored, by simpa [PageQuery.wants, hi] using hwants, ?_⟩
  rw [Function.comp]
  cases hfields : q.fields with
  | none =>
    obtain ⟨hne, hmem⟩ := PageQuery.mem_fields_carried hi hcarries hfields
    have hunset : (none : Option (List String)) ≠ some [] := (Option.some_ne_none _).symm
    exact ⟨fun h => absurd h hunset, iff_of_true (Record.carries_only hne hmem) fun h => absurd h hunset⟩
  | some asked =>
    -- only the empty list is left, and it stands for no choice of fields at all
    rw [hfields] at hq
    obtain rfl : asked = [] := hq
    have hnone : (PageQuery.byIndex q).fields c.entity = [] := by
      simp [PageQuery.fields, hfields]
    rw [hnone]
    exact ⟨fun _ => rfl, Record.carries_whole_iff.trans ⟨fun h _ => h, fun h => h rfl⟩⟩

/-- **A page of an index query** that asks for no fields shows what the index carries. -/
theorem page_shows_carried (hsuffix : ∀ ch ∈ suffix.toList, ch.isAlphanum = true)
    (ht : s.tables.find c.entity.table = some t) (hreached : t.Reached shape) (hfits : c.entity.Fits shape)
    {q : IndexQuery} (hi : (c.entity.indexes.find? fun i => i.name = q.index) = some i)
    (hcarries : i.carriedFields ≠ []) (hq : q.fields.getD [] = [])
    (hn : (PageQuery.byIndex q).aliasCount c.entity < Numeral.natBound) {page : PageOfRecords}
    (hpage : (c.indexQuery suffix q s).1 = .ok page) : c.ShowsCarried t i q page.items := by
  obtain rfl := hreached.shape_eq
  have hrelates : Relates (Twins c.entity.table t) _ (c.page suffix (.byIndex q))
      (c.page suffix ((PageQuery.byIndex q).asking (some []))) :=
    relates_page hsuffix hsuffix hreached.sound hfits hn
  obtain ⟨heq, hshows⟩ := hrelates.eq_map eq_of_twins ⟨rfl, ht⟩
  have hpage' : (c.page suffix (.byIndex q) s).1 = .ok page := hpage
  rw [heq, Call.map_eq] at hpage'
  obtain ⟨whole, hwhole, rfl⟩ := map_eq_ok.1 hpage'
  exact (hshows whole hwhole).carried hi hcarries hq

/--
**When an index query shows what the index carries.** The records that a query finds by an index that carries only some
fields, page by page or all at once, are of stored items that it looks for. If the query does not say which fields it
asks for, each has the key fields of the table and of the index and the fields that the index carries, those of them
that the item has, and no others. If it asks for an empty list of fields, each is the whole of its item, and so this is
so of just the records of items that have no others themselves.
-/
theorem index_shows_carried (hsuffix : ∀ ch ∈ suffix.toList, ch.isAlphanum = true)
    (ht : s.tables.find c.entity.table = some t) (hreached : t.Reached shape) (hfits : c.entity.Fits shape)
    {q : IndexQuery} (hi : (c.entity.indexes.find? fun i => i.name = q.index) = some i)
    (hcarries : i.carriedFields ≠ []) (hq : q.fields.getD [] = [])
    (hn : (PageQuery.byIndex q).aliasCount c.entity < Numeral.natBound) :
    (∀ page, (c.indexQuery suffix q s).1 = .ok page → c.ShowsCarried t i q page.items) ∧
    ∀ records, (c.indexQueryAll suffix q s).1 = .ok records → c.ShowsCarried t i q records := by
  refine ⟨fun page hpage => page_shows_carried hsuffix ht hreached hfits hi hcarries hq hn hpage, ?_⟩
  intro records hrecords
  obtain ⟨page, st, hpage, hreturn⟩ := Call.bind_ok (Prod.ext hrecords rfl)
  cases hreturn
  have hunpaged := @page_shows_carried i c s t suffix shape hsuffix ht hreached hfits
    { q with paging := unpaged q.paging } hi hcarries hq hn page (by rw [hpage])
  exact hunpaged

/-- The first page, of one record, by an index that carries a field which the items have and one which they have not. -/
theorem index_shows_carried_sized :
    let shape : TableShape :=
      ⟨"t", ⟨⟨"pk", .text⟩, some ⟨"id", .text⟩⟩, [⟨"by", ⟨⟨"g", .text⟩, some ⟨"n", .text⟩⟩⟩]⟩
    let item (id n : String) : Item :=
      [("g", .text "1"), ("id", .text id), ("n", .text n), ("pk", .text "p"), ("x", .text "X"), ("y", .text "Y")]
    let i : EntityIndex := { name := "by", partitionField := "g", sortField := "n", carriedFields := ["n", "x", "z"] }
    let c : Collection :=
      { entity := { table := "t", partitionValue := "p", partitionField := "pk", indexes := [i] } }
    let q : IndexQuery :=
      { index := "by", partitionField := "g", partition := .string "1", paging := { pageSize := some 1 } }
    let token := "eyJnIjp7IlMiOiIxIn0sImlkIjp7IlMiOiJiIn0sIm4iOnsiUyI6IjgifSwicGsiOnsiUyI6InAifX0="
    let shown : Record :=
      [("g", .string "1"), ("id", .string "b"), ("n", .string "8"), ("pk", .string "p"), ("x", .string "X")]
    ∃ t : Table, t.Reached shape ∧ c.entity.Fits shape ∧ t.items = [item "a" "9", item "b" "8"] ∧
      (c.indexQuery "5f" q (⟨[("t", t)], {}⟩ : MemoryStore)).1 = .ok ⟨[shown], some token⟩ ∧
      ∃ item ∈ t.items, shown.Carries ["pk", "id", "g", "n", "n", "x", "z"] item := by
  intro shape item i c q token shown
  have hordered : ∀ id n, Fields.Ordered (item id n) := fun _ _ =>
    List.pairwise_map.1 (show ["g", "id", "n", "pk", "x", "y"].Pairwise (· < ·) by decide)
  obtain ⟨t, ht⟩ : ∃ t : Table, ⟨shape, [(.text "p", [(some (.text "a"), item "a" "9"),
      (some (.text "b"), item "b" "8")])]⟩ = t := ⟨_, rfl⟩
  have hreached : t.Reached shape := by
    subst ht
    exact .put (.put .empty (hordered "a" "9") (by rfl)) (hordered "b" "8") (by rfl)
  have hfits : c.entity.Fits shape := .of_index rfl rfl rfl rfl
  have hpage : (c.indexQuery "5f" q (⟨[("t", t)], {}⟩ : MemoryStore)).1 = .ok ⟨[shown], some token⟩ := by
    subst ht
    unfold c q shown token item i shape
    cbv
  obtain ⟨hcarried, -⟩ := @index_shows_carried i c ⟨[("t", t)], {}⟩ t "5f" shape (List.all_eq_true.1 rfl) rfl hreached
    hfits q rfl (List.cons_ne_nil _ _) rfl (by decide)
  obtain ⟨stored, hstored, -, -, hiff⟩ := hcarried _ hpage shown List.mem_cons_self
  exact ⟨t, hreached, hfits, by subst ht; rfl, hpage, stored, hstored, hiff.2 (by rintro ⟨⟩)⟩

/-- Asked for an empty list of fields, the same index gives a record with a field that it does not carry. -/
theorem index_shows_whole :
    let shape : TableShape :=
      ⟨"t", ⟨⟨"pk", .text⟩, some ⟨"id", .text⟩⟩, [⟨"by", ⟨⟨"g", .text⟩, some ⟨"n", .text⟩⟩⟩]⟩
    let item : Item := [("g", .text "1"), ("id", .text "a"), ("n", .text "9"), ("pk", .text "p"), ("y", .text "Y")]
    let i : EntityIndex := { name := "by", partitionField := "g", sortField := "n", carriedFields := ["x"] }
    let c : Collection :=
      { entity := { table := "t", partitionValue := "p", partitionField := "pk", indexes := [i] } }
    let q : IndexQuery := { index := "by", partitionField := "g", partition := .string "1", fields := some [] }
    ∃ t : Table, t.Reached shape ∧ c.entity.Fits shape ∧ t.items = [item] ∧
      (c.indexQuery "5f" q (⟨[("t", t)], {}⟩ : MemoryStore)).1 = .ok ⟨[item.toRecord], none⟩ ∧
      ¬ item.toRecord.Carries (i.carriedNames c.entity) item := by
  intro shape item i c q
  have hordered : Fields.Ordered item :=
    List.pairwise_map.1 (show ["g", "id", "n", "pk", "y"].Pairwise (· < ·) by decide)
  obtain ⟨t, ht⟩ : ∃ t : Table, ⟨shape, [(.text "p", [(some (.text "a"), item)])]⟩ = t := ⟨_, rfl⟩
  refine ⟨t, ?_, .of_index rfl rfl rfl rfl, by subst ht; rfl, ?_, fun h => ?_⟩
  · subst ht
    exact .put .empty hordered (by rfl)
  · subst ht
    unfold c q item i shape
    cbv
  · exact absurd (h.only "y" (by decide)) (by decide)

end Collection

end RecordStore
