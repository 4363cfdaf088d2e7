import Mathlib
import RecordStore.Proofs.Collection.Finding

/-!
# What is on a page

A page of a query has the records that come next after its cursor, as many as the page should have. How many items the
reads look at that fill the page does not matter: neither what is asked for, nor the bounds that are set, nor a ceiling
of the store.

`Following` says which items a query looks for after a key, and in which order, and `Cursors` which cursors a query can
go on from: those of its own pages. **`Collection.page_eq_take`**: a page of `n` records holds the first `n` of the
items that follow its cursor, or all if there are fewer.
-/

namespace RecordStore

/-! ## Queries that are read page by page -/

/-- A query that is read page by page. -/
inductive PageQuery where
  | byKey (q : KeyQuery)
  | byIndex (q : IndexQuery)
  | byFilter (q : FilterQuery)

/-- Whether a filter alone looks for an item: among the records of the entity, for those that it holds of. -/
def FilterQuery.wants (q : FilterQuery) (e : Entity) (item : Item) : Bool :=
  item.find e.partitionField = some (.text e.partitionValue) && q.filter.all fun d => d.holds item

namespace PageQuery

/-- Which page to read. -/
def paging : PageQuery → Paging
  | .byKey q => q.paging
  | .byIndex q => q.paging
  | .byFilter q => q.paging

/-- The query for another page. -/
def withPaging (paging : Paging) : PageQuery → PageQuery
  | .byKey q => .byKey { q with paging }
  | .byIndex q => .byIndex { q with paging }
  | .byFilter q => .byFilter { q with paging }

/-- The query for some fields. -/
def asking (fields : Option (List String)) : PageQuery → PageQuery
  | .byKey q => .byKey { q with fields }
  | .byIndex q => .byIndex { q with fields }
  | .byFilter q => .byFilter { q with fields }

/-- The index that is read. -/
def index? (e : Entity) : PageQuery → Option EntityIndex
  | .byIndex q => e.indexes.find? fun i => i.name = q.index
  | _ => none

/-- Whether the query looks for an item. -/
def wants (e : Entity) : PageQuery → Item → Bool
  | .byKey q, item => q.wants e item
  | .byIndex q, item => (e.indexes.find? fun i => i.name = q.index).any fun i => q.wants i item
  | .byFilter q, item => q.wants e item

/-- What a query asks of the keys of an item. -/
def ranges (e : Entity) : PageQuery → Item → Bool
  | .byKey q, item =>
    q.sort.all (fun d => d.holds item) && (Leaf.equals e.partitionField (.string q.partition)).holds item
  | .byIndex q, item => (e.indexes.find? fun i => i.name = q.index).any fun i =>
    q.sort.all (fun d => d.holds item) && (Leaf.equals i.partitionField q.partition).holds item
  | .byFilter _, _ => true

/-- What a query asks of an item besides; a filter alone is for the partition of the entity. -/
def passes (e : Entity) : PageQuery → Item → Bool
  | .byKey q, item => q.filter.all fun d => d.holds item
  | .byIndex q, item => q.filter.all fun d => d.holds item
  | .byFilter q, item => ((q.filter.getD {}).equals e.partitionField (.string e.partitionValue)).holds item

/-- The key fields, which are read along. -/
def keyFields (e : Entity) (q : PageQuery) : List String :=
  match q.index? e with
  | some i => Collection.indexKeyFields e i
  | none => e.keyFields

/-- The fields that are shown: those asked for, or else those that the index carries; none stand for all. -/
def fields (e : Entity) (q : PageQuery) : List String :=
  match q with
  | .byKey q => q.fields.getD []
  | .byIndex q => (q.fields <|> (e.indexes.find? fun i => i.name = q.index).bind fun i =>
      Collection.carriedBy i (Collection.indexKeyFields e i)).getD []
  | .byFilter q => q.fields.getD []

/-- The record that is shown of an item. -/
def shown (e : Entity) (q : PageQuery) (item : Item) : Record :=
  Item.toRecord (item.only (q.fields e))

/-- The key attributes by which items are ordered. -/
def readOrder (e : Entity) (shape : TableShape) (q : PageQuery) : List (Option KeyField) :=
  shape.readOrder ((q.index? e).bind fun i => shape.index? i.name)

/-- Whether items are read in the order of their positions; there is no other way for a filter alone. -/
def ascending : PageQuery → Bool
  | .byKey q => !q.paging.descending
  | .byIndex q => !q.paging.descending
  | .byFilter _ => true

/-- The conditions of a query: that on the sort key and the filter. -/
def conditions : PageQuery → Option Definition × Option Definition
  | .byKey q => (q.sort, q.filter)
  | .byIndex q => (q.sort, q.filter)
  | .byFilter q => (none, q.filter)

/-- The operation that reads the pages. -/
def kind : PageQuery → ReadKind
  | .byKey _ | .byIndex _ => .query
  | .byFilter _ => .scan

/-- How many aliases the expressions of a query take at most. -/
def aliasCount (e : Entity) (q : PageQuery) : Nat :=
  Definition.aliasCount? q.conditions.1 + 2 + ((q.fields e).length + (q.keyFields e).length) +
    Definition.aliasCount? q.conditions.2

variable (e : Entity) (paging : Paging) (q : PageQuery)

@[simp] theorem paging_withPaging : (q.withPaging paging).paging = paging := by
  cases q <;> rfl

@[simp] theorem wants_withPaging : (q.withPaging paging).wants e = q.wants e := by
  cases q <;> rfl

@[simp] theorem shown_withPaging : (q.withPaging paging).shown e = q.shown e := by
  cases q <;> rfl

@[simp] theorem readOrder_withPaging (shape : TableShape) :
    (q.withPaging paging).readOrder e shape = q.readOrder e shape := by
  cases q <;> rfl

@[simp] theorem aliasCount_withPaging : (q.withPaging paging).aliasCount e = q.aliasCount e := by
  cases q <;> rfl

theorem ascending_withPaging (h : paging.descending = q.paging.descending) :
    (q.withPaging paging).ascending = q.ascending := by
  cases q with
  | byKey q => exact congrArg (!·) h
  | byIndex q => exact congrArg (!·) h
  | byFilter q => rfl

theorem withPaging_self : q.withPaging q.paging = q := by
  cases q <;> rfl

variable {q}

/-- A query without a cursor is one for the first page. -/
theorem withPaging_first (h : q.paging.cursor = none) : q.withPaging { q.paging with cursor := none } = q := by
  rw [← h]
  exact q.withPaging_self

end PageQuery

/-- A table has the keys that an entity declares: texts for its own, and the declared fields for its indexes. -/
structure Entity.Fits (e : Entity) (shape : TableShape) : Prop where
  key : shape.key = ⟨⟨e.partitionField, .text⟩, some ⟨e.sortField, .text⟩⟩
  indexes : ∀ i ∈ e.indexes, ∃ index first second, shape.index? i.name = some index ∧
    index.key = ⟨⟨i.partitionField, first⟩, some ⟨i.sortField, second⟩⟩

/-- One index that an entity declares, and the table has it. -/
theorem Entity.Fits.of_index {e : Entity} {shape : TableShape} {i : EntityIndex} {index : IndexShape}
    {first second : KeyType} (hkey : shape.key = ⟨⟨e.partitionField, .text⟩, some ⟨e.sortField, .text⟩⟩)
    (hdeclared : e.indexes = [i]) (hindex : shape.index? i.name = some index)
    (hfields : index.key = ⟨⟨i.partitionField, first⟩, some ⟨i.sortField, second⟩⟩) : e.Fits shape := by
  refine ⟨hkey, fun i' hi => ?_⟩
  rw [hdeclared] at hi
  obtain rfl := List.mem_singleton.1 hi
  exact ⟨index, first, second, hindex, hfields⟩

namespace Collection

variable {σ : Type} [Store σ]

/-- What to read for a query, and which fields to hide, if it passes the checks. -/
def select (c : Collection) (suffix : String) : PageQuery → Except AccessError (Selection × List String)
  | .byKey q => c.selectByKey suffix q
  | .byIndex q => c.selectByIndex suffix q
  | .byFilter q => c.selectByFilter suffix q

/-- A page of the records that a query finds. -/
def page (c : Collection) (suffix : String) : PageQuery → Call σ AccessError PageOfRecords
  | .byKey q => c.query suffix q
  | .byIndex q => c.indexQuery suffix q
  | .byFilter q => c.scan suffix q

theorem page_eq (c : Collection) (suffix : String) (q : PageQuery) :
    (c.page suffix q : Call σ AccessError PageOfRecords) =
      (do let (what, hidden) ← Call.ofExcept (c.select suffix q); c.recordsOf what q.paging hidden) := by
  cases q <;> rfl

/-- A cursor says where to read on, not what. -/
theorem page_withCursor (c : Collection) (suffix : String) (q : PageQuery) (cursor : Option String) :
    (c.page suffix (q.withPaging { q.paging with cursor }) : Call σ AccessError PageOfRecords) =
      (do
        let (what, hidden) ← Call.ofExcept (c.select suffix q)
        c.recordsOf what { q.paging with cursor } hidden) := by
  cases q <;> rfl

/-- All records of a query are those of one page of no given size. -/
theorem queryAll_eq (c : Collection) (suffix : String) (q : KeyQuery) :
    (c.queryAll suffix q : Call σ AccessError (List Record)) =
      (·.items) <$> c.page suffix ((PageQuery.byKey q).withPaging (unpaged q.paging)) :=
  bind_pure_comp _ _

theorem indexQueryAll_eq (c : Collection) (suffix : String) (q : IndexQuery) :
    (c.indexQueryAll suffix q : Call σ AccessError (List Record)) =
      (·.items) <$> c.page suffix ((PageQuery.byIndex q).withPaging (unpaged q.paging)) :=
  bind_pure_comp _ _

end Collection

/-! ## What follows a key -/

/-- The items of a table of which `p` holds and that come after some key, in the order of a read. -/
structure Following (t : Table) (readOrder : List (Option KeyField)) (forward : Bool) (start : Option Key)
    (p : Item → Bool) (items : List Item) : Prop where
  mem : ∀ item, item ∈ items ↔
    item ∈ t.items ∧ p item = true ∧ ∀ key ∈ start, Table.Precedes readOrder forward key item
  inOrder : items.Pairwise (Table.Precedes readOrder forward)

namespace Table

variable {readOrder : List (Option KeyField)} {forward : Bool} {a b : Item}

theorem Precedes.asymm (h : Precedes readOrder forward a b) : ¬ Precedes readOrder forward b a := by
  obtain ⟨p, q, hp, hq, hpq⟩ := h
  rintro ⟨q', p', hq', hp', hqp⟩
  rw [hp] at hp'
  rw [hq] at hq'
  cases hp'
  cases hq'
  exact hpq.asymm hqp

end Table

/-- **There is one such list only.** -/
theorem Following.unique {t : Table} {readOrder : List (Option KeyField)} {forward : Bool} {start : Option Key}
    {p : Item → Bool} {items items' : List Item} (h : Following t readOrder forward start p items)
    (h' : Following t readOrder forward start p items') : items = items' := by
  have hnodup : ∀ {xs : List Item}, xs.Pairwise (Table.Precedes readOrder forward) → xs.Nodup := by
    intro xs hpairs
    refine hpairs.imp ?_
    rintro a _ hab rfl
    exact hab.asymm hab
  refine List.Perm.eq_of_pairwise ?_ h.inOrder h'.inOrder ?_
  · intro a b _ _ hab hba
    exact absurd hba hab.asymm
  · rw [List.perm_ext_iff_of_nodup (hnodup h.inOrder) (hnodup h'.inOrder)]
    intro item
    rw [h.mem, h'.mem]

/--
A page holds the first `n` of some records, or all if there are fewer. It has a cursor only if it is full, and none only
if no record is left.
-/
structure PageOfRecords.Takes (page : PageOfRecords) (n : Nat) (records : List Record) : Prop where
  items : page.items = records.take n
  full : page.nextCursor.isSome → page.items.length = n
  last : page.nextCursor = none → records.length ≤ n

/-! ## What is read for a query -/

namespace Selection

variable {what : Selection} {t : Table} {w : TableRead} {descending : Bool} {p : Item → Bool} {fields : List String}

/-- The key fields are those by which a planned read is ordered. -/
theorem Planned.mem_keyFields (h : what.Planned t descending p fields w)
    (hkeys : ∀ f, f ∈ what.keyFields ↔ f ∈ t.shape.keyNames (what.indexIn t.shape)) (f : String) :
    f ∈ what.keyFields ↔ f ∈ (t.shape.readOrder w.index).filterMap fun k => k.map (·.name) := by
  rw [hkeys, ← Table.mem_keyNames_iff, h.index]

/-- A planned read returns items with their keys if all fields are read, or those of the key are among them. -/
theorem Planned.keyed (h : what.Planned t descending p fields w) (hs : t.Sound)
    (hkeys : ∀ f, f ∈ what.keyFields ↔ f ∈ t.shape.keyNames (what.indexIn t.shape))
    (hfields : fields ≠ [] → ∀ f ∈ what.keyFields, f ∈ fields) : Page.Keyed what t w := by
  intro item hrow
  obtain ⟨hi, position, hplace⟩ := Table.mem_rows hrow
  have hne : what.keyFields ≠ [] := by
    refine List.ne_nil_of_mem ((hkeys t.shape.key.partition.name).2 ?_)
    exact List.mem_map_of_mem (List.mem_append_left _ List.mem_cons_self)
  refine Table.keyFrom_isSome hne ?_
  intro f hf
  have hhas := Table.has_of_place hplace ((h.mem_keyFields hkeys f).1 hf)
  rw [h.output item (hs.ordered item hi), Item.has_only item fun hread => hfields hread f hf, hhas]

end Selection

namespace Collection

variable {c : Collection} {s : MemoryStore} {t : Table} {suffix : String} {shape : TableShape} {q : PageQuery}
  {what : Selection} {hidden : List String}

/-- The read that a query is made into. -/
structure Reads (c : Collection) (q : PageQuery) (t : Table) (what : Selection) (hidden : List String) (w : TableRead) :
    Prop where
  readable : Page.Readable what q.paging.descending t w
  asks : ∃ range filter fields, what.Asks t.shape range filter fields
  kind : what.kind = q.kind
  table : what.table = c.entity.table
  order : t.shape.readOrder w.index = q.readOrder c.entity t.shape
  forward : w.forward = q.ascending
  selects : ∀ item ∈ t.items,
    ((Table.place (q.readOrder c.entity t.shape) item).isOk && w.selects item) = q.wants c.entity item
  shows : ∀ item ∈ t.items, visible hidden (w.output item) = q.shown c.entity item
  keyed : (CapBounds.positive? q.paging.pageSize).isSome → Page.Keyed what t w

/-- What a filter alone asks of an item is whether it looks for it. -/
theorem wants_byFilter {q : FilterQuery} {item : Item} (hs : t.Sound) (hi : item ∈ t.items) :
    ((Table.place (t.shape.readOrder none) item).isOk && (true &&
      ((q.filter.getD {}).equals c.entity.partitionField (.string c.entity.partitionValue)).holds item)) =
      q.wants c.entity item := by
  have hplace : (Table.place (t.shape.readOrder none) item).isOk = true := hs.place_table hi
  have hfilter : (q.filter.getD {}).holds item = q.filter.all fun d => d.holds item := by
    cases q.filter <;> rfl
  rw [hplace, Bool.true_and, Bool.true_and, (equals_holds _ _ _).2, hfilter, holds_equals_text, FilterQuery.wants,
    Bool.and_comm]

theorem length_pagedFields (fields : Option (List String)) (keyFields : List String) (paging : Paging) :
    (pagedFields fields keyFields paging).1.length ≤ (fields.getD []).length + keyFields.length := by
  obtain ⟨hidden, hpaged, -, hlength, -⟩ := pagedFields_eq fields keyFields paging
  rw [hpaged, List.length_append]
  omega

/-- What a query asks of an item that has its keys is whether it looks for it. -/
theorem ranges_passes (hs : t.Sound) (hfits : c.entity.Fits t.shape) {item : Item} (hi : item ∈ t.items) :
    ((Table.place (q.readOrder c.entity t.shape) item).isOk && (q.ranges c.entity item && q.passes c.entity item)) =
      q.wants c.entity item := by
  cases q with
  | byKey q => exact wants_byKey hs hi
  | byFilter q => exact wants_byFilter hs hi
  | byIndex q =>
    simp only [PageQuery.readOrder, PageQuery.index?, PageQuery.ranges, PageQuery.passes, PageQuery.wants]
    cases hfind : c.entity.indexes.find? fun i => i.name = q.index with
    | none => rw [Option.any_none, Option.any_none, Bool.false_and, Bool.and_false]
    | some i =>
      obtain ⟨index, first, second, hindex, hindexKey⟩ := hfits.indexes i (List.mem_of_find?_eq_some hfind)
      rw [Option.bind_some, hindex, Option.any_some, Option.any_some]
      exact wants_byIndex hs hi (List.mem_of_find?_eq_some hindex) hindexKey

/-- **A query that passes the checks is served** by a selection of what it asks. -/
theorem serves_select (hsuffix : ∀ ch ∈ suffix.toList, ch.isAlphanum = true) (hfits : c.entity.Fits shape)
    (hn : q.aliasCount c.entity < Numeral.natBound) (h : c.select suffix q = .ok (what, hidden)) :
    Serves what hidden c.entity shape ((q.index? c.entity).bind fun i => shape.index? i.name) q.kind
        (some (q.fields c.entity)) q.paging (q.ranges c.entity) (q.passes c.entity) ∧
      what.keyFields = q.keyFields c.entity := by
  cases q with
  | byKey q =>
    have hlength := length_pagedFields q.fields c.entity.keyFields q.paging
    simp only [PageQuery.aliasCount, PageQuery.conditions, PageQuery.fields, PageQuery.keyFields, PageQuery.index?]
      at hn
    obtain ⟨key, hdef, hserves⟩ := serves_byKey hsuffix hfits.key (by omega) h
    rw [funext (keyDefinition_ok hdef).2] at hserves
    obtain ⟨_, _, _, -, -, -, rfl⟩ := selectByKey_ok h
    exact ⟨⟨hserves.table, hserves.index, hserves.kind, hserves.hidden, hserves.asks⟩, rfl⟩
  | byIndex q =>
    obtain ⟨i, _, _, _, hi, -, -, -, hwhat⟩ := selectByIndex_ok h
    obtain ⟨index, first, second, hindex, hindexKey⟩ := hfits.indexes i (List.mem_of_find?_eq_some hi)
    have hlength := length_pagedFields (q.fields <|> carriedBy i (indexKeyFields c.entity i))
      (indexKeyFields c.entity i) q.paging
    simp only [PageQuery.aliasCount, PageQuery.conditions, PageQuery.fields, PageQuery.keyFields, PageQuery.index?, hi,
      Option.bind_some] at hn
    obtain ⟨key, hdef, hserves⟩ := serves_byIndex hsuffix hfits.key hi hindex hindexKey rfl (by omega) h
    rw [funext (keyDefinition_ok hdef).2] at hserves
    simp only [PageQuery.index?, PageQuery.fields, PageQuery.keyFields, PageQuery.paging, PageQuery.kind, hi,
      Option.bind_some, hindex]
    have hranges : (PageQuery.byIndex q).ranges c.entity = fun item =>
        q.sort.all (fun d => d.holds item) && (Leaf.equals i.partitionField q.partition).holds item := by
      funext item
      simp only [PageQuery.ranges, hi, Option.any_some]
    rw [hranges]
    exact ⟨⟨hserves.table, hserves.index, hserves.kind, hserves.hidden, hserves.asks⟩, by rw [hwhat]⟩
  | byFilter q =>
    have hlength := length_pagedFields q.fields c.entity.keyFields q.paging
    simp only [PageQuery.aliasCount, PageQuery.conditions, PageQuery.fields, PageQuery.keyFields, PageQuery.index?]
      at hn
    have hserves := serves_byFilter hsuffix hfits.key (by omega) h
    obtain ⟨_, _, -, -, rfl⟩ := selectByFilter_ok h
    exact ⟨⟨hserves.table, hserves.index, hserves.kind, hserves.hidden, hserves.asks⟩, rfl⟩

/-- **A query that passes the checks is read**, for just the items that it looks for. -/
theorem exists_reads (hsuffix : ∀ ch ∈ suffix.toList, ch.isAlphanum = true) (hs : t.Sound)
    (hfits : c.entity.Fits t.shape) (hn : q.aliasCount c.entity < Numeral.natBound)
    (h : c.select suffix q = .ok (what, hidden)) : ∃ w, Reads c q t what hidden w := by
  have hnumber : t.shape.key.partition.type ≠ .number := by rw [hfits.key]; exact nofun
  obtain ⟨hserves, -⟩ := serves_select hsuffix hfits hn h
  obtain ⟨hidden', hpaged, hdisjoint, -, hhides, hkeyed⟩ :=
    pagedFields_eq (some (q.fields c.entity)) what.keyFields q.paging
  have hhidden := hserves.hidden
  have hasks := hserves.asks
  rw [hpaged] at hhidden hasks
  subst hhidden
  rw [Option.getD_some] at hdisjoint hhides hkeyed hasks
  obtain ⟨w, hplanned⟩ := hasks.planned q.paging.descending
  have hnames := hplanned.mem_keyFields hasks.keyFields
  have horder : t.shape.readOrder w.index = q.readOrder c.entity t.shape := by
    rw [hplanned.index, hserves.index, PageQuery.readOrder]
  refine ⟨w, ⟨hs, hnumber, hplanned.plan, hplanned.evaluates _, hnames⟩, ⟨_, _, _, hasks⟩, hserves.kind,
    hserves.table, horder, ?_, ?_, ?_, ?_⟩
  · rw [hplanned.forward, Selection.forward, hserves.kind]
    cases q <;> rfl
  · intro item hi
    rw [hplanned.selects]
    exact ranges_passes hs hfits hi
  · intro item hi
    rw [hplanned.output item (hs.ordered item hi)]
    exact visible_only hdisjoint hhides item
  · intro hsize
    refine hplanned.keyed hs hasks.keyFields fun hread => hkeyed ?_ hsize
    -- no field is read along if all are read
    intro hnil
    rw [hnil, hhides hnil] at hread
    exact hread rfl

/-! ## Cursors -/

/--
The cursors that a query can go on from: none, or that of a page of the same query in the same direction, read at some
time from a table of this shape, whatever was in it then and whatever the sizes of pages, the limits of reads and the
faults were.
-/
inductive Cursors (c : Collection) (shape : TableShape) (q : PageQuery) : Option String → Prop
  | first : Cursors c shape q none
  | ofPage {settings : Settings} {suffix : String} {paging : Paging} {s s' : MemoryStore} {t : Table}
      {page : PageOfRecords} : 1 ≤ settings.minCap → (∀ ch ∈ suffix.toList, ch.isAlphanum = true) →
      (∀ n ∈ paging.pageSize, n + 1 < Numeral.natBound) → paging.descending = q.paging.descending →
      s.tables.find c.entity.table = some t → t.Reached shape →
      Collection.page { c with settings } suffix (q.withPaging paging) s = (.ok page, s') →
      Cursors c shape q page.nextCursor

/-- **A cursor** that a query can go on from stands for a key that a read can start after. -/
theorem Cursors.start {cursor : Option String} (h : Cursors c shape q cursor) (hfits : c.entity.Fits shape)
    (hn : q.aliasCount c.entity < Numeral.natBound) : ∃ start : Option Key,
      cursor.map Cursor.decode = start.map .ok ∧ (∀ settings, Page.start settings cursor = .ok start) ∧
      ∀ key ∈ start, Table.Stands (q.readOrder c.entity shape) key := by
  cases h with
  | first => exact ⟨none, rfl, fun _ => rfl, nofun⟩
  | @ofPage settings suffix paging s s' t page hmin hsuffix hsize hd ht hreached hpage =>
    obtain rfl := hreached.shape_eq
    rw [page_eq] at hpage
    obtain ⟨⟨what, hidden⟩, hselect, hpage⟩ := Call.bind_ofExcept_ok hpage
    obtain ⟨p, _, hread, hpage⟩ := Call.bind_ok hpage
    obtain rfl : ⟨p.items.map (visible hidden), p.nextCursor⟩ = page := Except.ok.inj (Prod.mk.inj hpage).1
    obtain ⟨w, hreads⟩ := @exists_reads { c with settings } t suffix (q.withPaging paging) what hidden hsuffix
      hreached.sound hfits (by rw [PageQuery.aliasCount_withPaging]; exact hn) hselect
    have hr := hreads.readable
    have horder := hreads.order
    rw [PageQuery.readOrder_withPaging] at horder
    rw [PageQuery.paging_withPaging] at hr hread
    have hcursor := Page.read_cursor hr hmin hsize rfl (by rw [hreads.table]; exact ht) (by rw [hread])
    cases hnext : p.nextCursor with
    | none => exact ⟨none, rfl, fun _ => rfl, nofun⟩
    | some token =>
      obtain ⟨key, hdecode, hstands, hstart⟩ := hcursor token hnext
      refine ⟨some key, by rw [Option.map_some, hdecode]; rfl, hstart, ?_⟩
      rintro _ ⟨⟩
      rw [← horder]
      exact hstands

/-! ## What is on a page -/

theorem isOk_select_of_page {page : PageOfRecords} (h : (c.page suffix q s).1 = .ok page) :
    (c.select suffix q).isOk := by
  rw [page_eq, Call.bind_eq] at h
  cases hselect : c.select suffix q with
  | ok selected => rfl
  | error e =>
    rw [hselect] at h
    cases h

/-- Of the items that are opened, a read selects those that the query looks for, in its order. -/
theorem Reads.following {w : TableRead} {start : Option Key} {items : List Item} (h : Reads c q t what hidden w)
    (hopens : t.Opens w start items) (hmem : ∀ item, item ∈ items ↔
      item ∈ t.rows w ∧ ∀ key ∈ start, Table.Precedes (t.shape.readOrder w.index) w.forward key item) :
    Following t (q.readOrder c.entity t.shape) q.ascending start (q.wants c.entity) (items.filter w.selects) := by
  constructor
  · intro item
    rw [List.mem_filter, hmem, (t.rows_perm w).mem_iff, List.mem_filter, h.order, h.forward]
    constructor
    · rintro ⟨⟨⟨hi, hplace⟩, hafter⟩, hselects⟩
      refine ⟨hi, ?_, hafter⟩
      rw [← h.selects item hi, hplace, hselects]
      rfl
    · rintro ⟨hi, hwants, hafter⟩
      rw [← h.selects item hi, Bool.and_eq_true] at hwants
      exact ⟨⟨⟨hi, hwants.1⟩, hafter⟩, hwants.2⟩
  · have hpairs := h.readable.sound.rows_pairwise h.readable.partition w
    rw [h.order, h.forward] at hpairs
    exact (hpairs.sublist hopens.suffix.sublist).filter _

/-- What is returned of items that are read is shown as the query has it. -/
theorem Reads.shown {w : TableRead} {items : List Item} (h : Reads c q t what hidden w) (hrows : items ⊆ t.rows w) :
    (w.outputs items).map (visible hidden) = (items.filter w.selects).map (q.shown c.entity) := by
  rw [TableRead.outputs, List.map_map]
  apply List.map_congr_left
  intro item hi
  exact h.shows item (Table.mem_rows (hrows (List.mem_filter.1 hi).1)).1

/-- A page is read for a query that passes the checks, and holds the records that come next. -/
theorem page_takes {n : Nat} (hsuffix : ∀ ch ∈ suffix.toList, ch.isAlphanum = true)
    (ht : s.tables.find c.entity.table = some t) (hs : t.Sound) (hfits : c.entity.Fits t.shape)
    (hmin : 1 ≤ c.settings.minCap) (hf : s.faults.failures = []) (hn : q.aliasCount c.entity < Numeral.natBound)
    (hselect : (c.select suffix q).isOk) (hsize : q.paging.pageSize = some n) (hpos : 1 ≤ n)
    (hmax : n + 1 < Numeral.natBound) {start : Option Key} (hstart : Page.start c.settings q.paging.cursor = .ok start)
    (hstands : ∀ key ∈ start, Table.Stands (q.readOrder c.entity t.shape) key) : ∃ page s' matching,
      c.page suffix q s = (.ok page, s') ∧
      Following t (q.readOrder c.entity t.shape) q.ascending start (q.wants c.entity) matching ∧
      page.Takes n (matching.map (q.shown c.entity)) := by
  cases hsel : c.select suffix q with
  | error e => rw [hsel] at hselect; cases hselect
  | ok selected =>
    obtain ⟨what, hidden⟩ := selected
    obtain ⟨w, hreads⟩ := exists_reads hsuffix hs hfits hn hsel
    have hr := hreads.readable
    have hkeyed := hreads.keyed (Option.isSome_iff_exists.2 ⟨n, Page.mem_positive?.2 ⟨hsize, hpos⟩⟩)
    rw [← hreads.order] at hstands
    obtain ⟨items, hopens, hmem⟩ := hs.opens hr.partition hstands
    obtain ⟨p, s', hread, hitems, hfull, hlast⟩ := Page.read_sized hr hmin hsize hpos hmax rfl
      (by rw [hreads.table]; exact ht) hf hkeyed hstart hopens
    have hshown := hreads.shown hopens.suffix.subset
    refine ⟨⟨p.items.map (visible hidden), p.nextCursor⟩, s', items.filter w.selects, ?_, hreads.following hopens hmem,
      ⟨?_, ?_, ?_⟩⟩
    · rw [page_eq, Call.bind_eq]
      simp only [Call.ofExcept, hsel, recordsOf, Call.bind_eq, hread]
      rfl
    · rw [← hshown, hitems, List.map_take]
    · intro hnext
      rw [List.length_map]
      exact hfull hnext
    · intro hnext
      rw [← hshown, List.length_map]
      exact hlast hnext

/--
**A page holds what comes next.** As long as no failure is planned and the aliases of a request do not run out, a query
that passes the checks and goes on from the cursor of one of its pages is answered with a page. It holds the first `n`
of the items that the query looks for and that come after the key of this cursor, has a cursor only if it is full, and
none only if nothing is left. With other limits asked for or set, or another ceiling of the store, the page holds the
same records.
-/
theorem page_eq_take {n : Nat} (hsuffix : ∀ ch ∈ suffix.toList, ch.isAlphanum = true)
    (ht : s.tables.find c.entity.table = some t) (hreached : t.Reached shape) (hfits : c.entity.Fits shape)
    (hmin : 1 ≤ c.settings.minCap) (hf : s.faults.failures = []) (hn : q.aliasCount c.entity < Numeral.natBound)
    (hselect : (c.select suffix q).isOk) (hsize : q.paging.pageSize = some n) (hpos : 1 ≤ n)
    (hmax : n + 1 < Numeral.natBound) (hcursor : Cursors c shape q q.paging.cursor) : ∃ page s' start matching,
      c.page suffix q s = (.ok page, s') ∧ q.paging.cursor.map Cursor.decode = start.map .ok ∧
      Following t (q.readOrder c.entity shape) q.ascending start (q.wants c.entity) matching ∧
      page.Takes n (matching.map (q.shown c.entity)) ∧
      ∀ (suffix' : String) (cap : Option Nat) (defaultCap minCap maxCap : Nat) (ceiling : Option Nat),
        (∀ ch ∈ suffix'.toList, ch.isAlphanum = true) → 1 ≤ minCap → (c.select suffix' q).isOk → ∃ page' s'',
          Collection.page { c with settings := { c.settings with defaultCap, minCap, maxCap } } suffix'
            (q.withPaging { q.paging with cap }) { s with faults := { s.faults with ceiling } } = (.ok page', s'') ∧
          page'.items = page.items := by
  obtain rfl := hreached.shape_eq
  obtain ⟨start, hdecode, hstart, hstands⟩ := hcursor.start hfits hn
  obtain ⟨page, s', matching, hpage, hfollowing, htakes⟩ := page_takes hsuffix ht hreached.sound hfits hmin hf hn
    hselect hsize hpos hmax (hstart _) hstands
  refine ⟨page, s', start, matching, hpage, hdecode, hfollowing, htakes, ?_⟩
  intro suffix' cap defaultCap minCap maxCap ceiling hsuffix' hmin' hselect'
  have hsame : Collection.select { c with settings := { c.settings with defaultCap, minCap, maxCap } } suffix'
      (q.withPaging { q.paging with cap }) = c.select suffix' q := by
    cases q <;> rfl
  obtain ⟨page', s'', matching', hpage', hfollowing', htakes'⟩ := @page_takes
    { c with settings := { c.settings with defaultCap, minCap, maxCap } }
    { s with faults := { s.faults with ceiling } } t suffix' (q.withPaging { q.paging with cap }) n hsuffix' ht
    hreached.sound hfits hmin' hf (by rw [PageQuery.aliasCount_withPaging]; exact hn) (by rw [hsame]; exact hselect')
    (by rw [PageQuery.paging_withPaging]; exact hsize) hpos hmax start
    (by rw [PageQuery.paging_withPaging]; exact hstart _) (by rw [PageQuery.readOrder_withPaging]; exact hstands)
  refine ⟨page', s'', hpage', ?_⟩
  -- both pages hold the first ones of the same items
  rw [PageQuery.readOrder_withPaging, PageQuery.ascending_withPaging { q.paging with cap } q rfl,
    PageQuery.wants_withPaging] at hfollowing'
  obtain rfl := hfollowing.unique hfollowing'
  rw [htakes'.items, htakes.items, PageQuery.shown_withPaging]

/-- Two pages of a query by an index, downwards, of a field that is no key. The first one is cut in the middle of a
read, and the second one comes of a read of one item. -/
theorem page_eq_take_second :
    let shape : TableShape :=
      ⟨"t", ⟨⟨"pk", .text⟩, some ⟨"id", .text⟩⟩, [⟨"by", ⟨⟨"g", .text⟩, some ⟨"n", .text⟩⟩⟩]⟩
    let item (id n x : String) : Item :=
      [("g", .text "1"), ("id", .text id), ("n", .text n), ("pk", .text "p"), ("x", .text x)]
    let c : Collection :=
      { entity := { table := "t", partitionValue := "p", partitionField := "pk"
                    indexes := [{ name := "by", partitionField := "g", sortField := "n" }] } }
    let q (cursor : Option String) : PageQuery := .byIndex
      { index := "by", partitionField := "g", partition := .string "1", fields := some ["x"]
        paging := { pageSize := some 2, cursor, descending := true } }
    let shown (x : String) : Record := [("x", .string x)]
    let token := "eyJnIjp7IlMiOiIxIn0sImlkIjp7IlMiOiJjIn0sIm4iOnsiUyI6Ijg1In0sInBrIjp7IlMiOiJwIn19"
    ∃ t : Table, t.Reached shape ∧ t.items = [item "a" "8" "A", item "b" "9" "B", item "c" "85" "C"] ∧
      (c.page "5f" (q none) (⟨[("t", t)], {}⟩ : MemoryStore)).1 = .ok ⟨[shown "B", shown "C"], some token⟩ ∧
      (c.page "6a" (q (some token)) (⟨[("t", t)], { ceiling := some 1 }⟩ : MemoryStore)).1 = .ok ⟨[shown "A"], none⟩ ∧
      ∃ key matching, Cursor.decode token = .ok key ∧
        Following t ((q none).readOrder c.entity shape) false (some key) ((q none).wants c.entity) matching ∧
        matching.map ((q none).shown c.entity) = [shown "A"] := by
  intro shape item c q shown token
  have hordered : ∀ id n x, Fields.Ordered (item id n x) := fun _ _ _ =>
    List.pairwise_map.1 (show ["g", "id", "n", "pk", "x"].Pairwise (· < ·) by decide)
  obtain ⟨t, ht⟩ : ∃ t : Table, ⟨shape, [(.text "p", [(some (.text "a"), item "a" "8" "A"),
      (some (.text "b"), item "b" "9" "B"), (some (.text "c"), item "c" "85" "C")])]⟩ = t := ⟨_, rfl⟩
  have hreached : t.Reached shape := by
    subst ht
    exact .put (.put (.put .empty (hordered "a" "8" "A") (by rfl)) (hordered "b" "9" "B") (by rfl))
      (hordered "c" "85" "C") (by rfl)
  have hfits : c.entity.Fits shape := .of_index rfl rfl rfl rfl
  have hfirst : (c.page "5f" (q none) (⟨[("t", t)], {}⟩ : MemoryStore)).1 =
      .ok ⟨[shown "B", shown "C"], some token⟩ := by
    subst ht
    unfold c q shown token item shape
    cbv
  have hsecond : (c.page "6a" (q (some token)) (⟨[("t", t)], { ceiling := some 1 }⟩ : MemoryStore)).1 =
      .ok ⟨[shown "A"], none⟩ := by
    subst ht
    unfold c q shown token item shape
    cbv
  have hcursor : Cursors c shape (q (some token)) (some token) :=
    @Cursors.ofPage c shape (q (some token)) c.settings "5f" { pageSize := some 2, descending := true } _ _ t _
      (by decide) (List.all_eq_true.1 rfl) (by decide) rfl rfl hreached (Prod.ext hfirst rfl)
  obtain ⟨page, s', start, matching, hpage, hdecode, hfollowing, htakes, -⟩ :=
    @page_eq_take c ⟨[("t", t)], { ceiling := some 1 }⟩ t "6a" shape (q (some token)) 2 (List.all_eq_true.1 rfl) rfl
      hreached hfits (by decide) rfl (by decide) (isOk_select_of_page hsecond) rfl (by decide) (by decide) hcursor
  refine ⟨t, hreached, by subst ht; rfl, hfirst, hsecond, ?_⟩
  rw [hpage] at hsecond
  obtain rfl := Except.ok.inj hsecond
  cases start with
  | none => cases hdecode
  | some key =>
    refine ⟨key, matching, Option.some.inj hdecode, hfollowing, ?_⟩
    have hitems := htakes.items
    rw [List.take_of_length_le (htakes.last rfl)] at hitems
    exact hitems.symm

end Collection

end RecordStore
