import Mathlib
import RecordStore.Proofs.Collection.Selecting
import RecordStore.Proofs.Expression.Equality
import RecordStore.Proofs.Paging.Filling
import RecordStore.Proofs.Text.Bytes

/-!
# Queries find what is there

`KeyQuery.wants` and `IndexQuery.wants` say of a single item whether a query looks for it.
**`Collection.finds_wanted`**: all records that a query finds are those of just the items in the table that it looks
for, each once, in the order of their keys.
-/

namespace RecordStore

/-! ## What a query looks for -/

/-- Whether a query by the keys of the table looks for an item. -/
def KeyQuery.wants (q : KeyQuery) (e : Entity) (item : Item) : Bool :=
  item.find e.partitionField = some (.text q.partition) && q.sort.all (fun d => d.holds item) &&
    q.filter.all fun d => d.holds item

/-- Whether a query by the keys of an index looks for an item. -/
def IndexQuery.wants (q : IndexQuery) (i : EntityIndex) (item : Item) : Bool :=
  item.has i.partitionField && item.has i.sortField &&
    (item.find i.partitionField).any (fun a => Attribute.holds .eq a (.ofJson q.partition)) &&
    q.sort.all (fun d => d.holds item) && q.filter.all fun d => d.holds item

/-- The records of just the items of a table of which `p` holds, each once, in an order. -/
def Found (t : Table) (p : Item → Bool) (before : Item → Item → Prop) (records : List Record) : Prop :=
  ∃ items : List Item, records = items.map Item.toRecord ∧ items.Perm (t.items.filter p) ∧ items.Pairwise before

theorem Found.imp {t : Table} {p q : Item → Bool} {before before' : Item → Item → Prop} {records : List Record}
    (h : Found t p before records) (hpq : ∀ item ∈ t.items, p item = q item)
    (hb : ∀ a b, q a = true → q b = true → before a b → before' a b) : Found t q before' records := by
  obtain ⟨items, hrecords, hperm, hpairs⟩ := h
  rw [List.filter_congr hpq] at hperm
  refine ⟨items, hrecords, hperm, hpairs.imp_of_mem ?_⟩
  intro a b ha hb' hab
  exact hb a b (List.mem_filter.1 (hperm.subset ha)).2 (List.mem_filter.1 (hperm.subset hb')).2 hab

namespace Collection

variable {c : Collection} {s : MemoryStore} {t : Table} {suffix : String}

/-- All records of a selection that asks for all attributes. -/
theorem recordsOf_found {what : Selection} {paging : Paging} {page : PageOfRecords} {range filter : Item → Bool}
    (hs : t.Sound) (hk : t.shape.key.partition.type ≠ .number) (hmin : 0 < c.settings.minCap)
    (ht : s.tables.find what.table = some t) (hf : s.faults.failures = []) (hasks : what.Asks t.shape range filter [])
    (h : (c.recordsOf what (unpaged paging) [] s).1 = .ok page) :
    Found t (fun item =>
        (Table.place (t.shape.readOrder (what.indexIn t.shape)) item).isOk && (range item && filter item))
      (Table.Precedes (t.shape.readOrder (what.indexIn t.shape)) (what.forward paging.descending)) page.items := by
  rw [recordsOf, Call.bind_eq] at h
  generalize hread : Page.read c.settings what (unpaged paging) s = o at h
  obtain ⟨_ | p, s'⟩ := o
  · cases h
  · obtain rfl : (⟨p.items.map (visible []), p.nextCursor⟩ : PageOfRecords) = page := Except.ok.inj h
    have hread' : (Page.read c.settings what (unpaged paging) s).1 = .ok p := by rw [hread]
    obtain ⟨w, hplanned⟩ := hasks.planned paging.descending
    have he : ∀ w', what.plan t (unpaged paging).descending = .ok w' → w'.Evaluates (t.rows w') := by
      intro w' hw'
      obtain rfl : w = w' := Except.ok.inj (hplanned.plan.symm.trans hw')
      exact hplanned.evaluates _
    obtain ⟨w', hw', rfl⟩ := Page.read_whole hs hk hmin rfl rfl ht hf hasks.keyFields he hread'
    obtain rfl : w = w' := Except.ok.inj (hplanned.plan.symm.trans hw')
    have houtputs : w.outputs (t.rows w) = (t.rows w).filter fun item => range item && filter item := by
      have hselects : w.selects = fun item => range item && filter item := funext hplanned.selects
      rw [TableRead.outputs, hselects, List.map_congr_left, List.map_id]
      intro item hitem
      have hordered := hs.ordered item (Table.mem_rows (List.mem_filter.1 hitem).1).1
      exact hplanned.output item hordered
    have hperm := t.rows_perm w
    have hpairs := hs.rows_pairwise hk w
    rw [hplanned.index] at hperm hpairs
    rw [hplanned.forward] at hpairs
    refine ⟨(t.rows w).filter fun item => range item && filter item, ?_, ?_, hpairs.filter _⟩
    · rw [houtputs]
      rfl
    · have hfiltered := hperm.filter fun item => range item && filter item
      rw [List.filter_filter] at hfiltered
      simpa only [Bool.and_comm] using hfiltered

/-! ## What is found -/

/-- All records are those of a page of all that is selected. -/
theorem pageOf_eq_ok {selected : Except AccessError (Selection × List String)} {paging : Paging}
    {records : List Record} :
    ((do
      let page ← (do let (what, hidden) ← Call.ofExcept selected; c.recordsOf what paging hidden)
      return page.items : Call MemoryStore AccessError (List Record)) s).1 = .ok records ↔
    ∃ what hidden page, selected = .ok (what, hidden) ∧ (c.recordsOf what paging hidden s).1 = .ok page ∧
      records = page.items := by
  rw [Call.bind_eq, Call.bind_eq]
  cases selected with
  | error e => exact ⟨nofun, fun ⟨_, _, _, hselect, _⟩ => nomatch hselect⟩
  | ok sel =>
    obtain ⟨what, hidden⟩ := sel
    simp only [Call.ofExcept]
    generalize hr : c.recordsOf what paging hidden s = o
    constructor
    · intro h
      obtain ⟨_ | page, s'⟩ := o
      · cases h
      · exact ⟨what, hidden, page, rfl, by rw [hr], (Except.ok.inj h).symm⟩
    · rintro ⟨what', hidden', page, hselect, hpage, rfl⟩
      cases hselect
      rw [hr] at hpage
      obtain ⟨r, s'⟩ := o
      obtain rfl : r = .ok page := hpage
      rfl

/-- Equality with a text holds of this text alone. -/
theorem holds_eq_text (a : Attribute) (p : String) : Attribute.holds .eq a (.text p) = decide (a = .text p) := by
  rw [Bool.eq_iff_iff, decide_eq_true_iff]
  exact Attribute.holds_eq_iff_eq fun h => nomatch h.2

/-- A field equals a text if it is this text. -/
theorem holds_equals_text (field text : String) (item : Item) :
    (Leaf.equals field (.string text)).holds item = decide (item.find field = some (.text text)) := by
  show (item.find field).any (fun a => Attribute.holds .eq a (.text text)) = _
  cases item.find field <;> simp [holds_eq_text]

/-- What a query by the keys of the table asks of an item is whether it looks for it. -/
theorem wants_byKey {q : KeyQuery} {item : Item} (hs : t.Sound) (hi : item ∈ t.items) :
    ((Table.place (t.shape.readOrder none) item).isOk &&
      (q.sort.all (fun d => d.holds item) && (Leaf.equals c.entity.partitionField (.string q.partition)).holds item &&
        q.filter.all fun d => d.holds item)) = q.wants c.entity item := by
  have hplace : (Table.place (t.shape.readOrder none) item).isOk = true := hs.place_table hi
  rw [hplace, Bool.true_and, holds_equals_text, KeyQuery.wants]
  ac_rfl

/-- What a query by the keys of an index asks of an item with these keys is whether it looks for it. -/
theorem wants_byIndex {q : IndexQuery} {i : EntityIndex} {index : IndexShape} {first second : KeyType}
    {item : Item} (hs : t.Sound) (hi : item ∈ t.items) (hindex : index ∈ t.shape.indexes)
    (hindexKey : index.key = ⟨⟨i.partitionField, first⟩, some ⟨i.sortField, second⟩⟩) :
    ((Table.place (t.shape.readOrder (some index)) item).isOk &&
      (q.sort.all (fun d => d.holds item) && (Leaf.equals i.partitionField q.partition).holds item &&
        q.filter.all fun d => d.holds item)) = q.wants i item := by
  have hplace : (Table.place (t.shape.readOrder (some index)) item).isOk =
      (item.has i.partitionField && item.has i.sortField) := by
    rw [Bool.eq_iff_iff, Bool.and_eq_true, hs.place_index hi hindex, hindexKey]
    simp [KeyShape.attributes]
  have hpartition : (Leaf.equals i.partitionField q.partition).holds item =
      (item.find i.partitionField).any fun a => Attribute.holds .eq a (.ofJson q.partition) := rfl
  rw [hplace, hpartition, IndexQuery.wants]
  ac_rfl

theorem part_text {item : Item} {field : String} {part : Option SortKey}
    (h : Table.part item (some ⟨field, .text⟩) = .ok part) :
    ∃ x, item.find field = some (.text x) ∧ part = some (.text x) := by
  obtain ⟨key, rfl, hkey⟩ := Table.part_some_ok h
  obtain ⟨a, hf, ha, hs⟩ := KeyField.sortKey_ok.1 hkey
  cases a with
  | text x =>
    cases hs
    exact ⟨x, hf, rfl⟩
  | _ => simp [KeyType.accepts, Attribute.type, KeyType.attributeType] at ha

theorem place_texts {item : Item} {first second : String} {p : Position}
    (h : Table.place [some ⟨first, .text⟩, some ⟨second, .text⟩] item = .ok p) :
    ∃ x y, item.find first = some (.text x) ∧ item.find second = some (.text y) ∧
      p = [some (.text x), some (.text y)] := by
  have hparts := Table.place_ok.1 h
  rw [List.forall₂_cons_left_iff] at hparts
  obtain ⟨_, _, hfirst, hparts, rfl⟩ := hparts
  rw [List.forall₂_cons_left_iff] at hparts
  obtain ⟨_, _, hsecond, hnil, rfl⟩ := hparts
  cases hnil
  obtain ⟨x, hx, rfl⟩ := part_text hfirst
  obtain ⟨y, hy, rfl⟩ := part_text hsecond
  exact ⟨x, y, hx, hy, rfl⟩

/-- Of two texts in one place, the position says which has the smaller bytes. -/
theorem utf8_lt_of_compare {value x y : String}
    (h : Position.compare [some (.text value), some (.text x)] [some (.text value), some (.text y)] = .lt) :
    Cursor.utf8 x < Cursor.utf8 y := by
  rw [Position.compare_cons, @Std.ReflCmp.compare_self _ Position.comparePart, Position.compare_cons] at h
  have hxy : (compareOfLessAndEq x y).then .eq = .lt := h
  rw [Ordering.then_eq] at hxy
  exact Text.utf8_lt_utf8 ((compareOfLessAndEq_eq_lt).1 hxy)

/-- The items of one partition stand in the order of the bytes of their sort keys. -/
theorem utf8_lt_of_precedes {partitionField sortField value : String} {forward : Bool} {a b : Item}
    (h : Table.Precedes [some ⟨partitionField, .text⟩, some ⟨sortField, .text⟩] forward a b)
    (ha : a.find partitionField = some (.text value)) (hb : b.find partitionField = some (.text value)) :
    ∃ x y, a.find sortField = some (.text x) ∧ b.find sortField = some (.text y) ∧
      if forward then Cursor.utf8 x < Cursor.utf8 y else Cursor.utf8 y < Cursor.utf8 x := by
  obtain ⟨p, q, hp, hq, hpq⟩ := h
  obtain ⟨_, x, hpa, hx, rfl⟩ := place_texts hp
  obtain ⟨_, y, hpb, hy, rfl⟩ := place_texts hq
  rw [ha] at hpa
  rw [hb] at hpb
  cases hpa
  cases hpb
  refine ⟨x, y, hx, hy, ?_⟩
  cases forward with
  | true => exact utf8_lt_of_compare hpq
  | false => exact utf8_lt_of_compare hpq

theorem queryAll_found (hsuffix : ∀ ch ∈ suffix.toList, ch.isAlphanum = true)
    (ht : s.tables.find c.entity.table = some t) (hs : t.Sound)
    (hkey : t.shape.key = ⟨⟨c.entity.partitionField, .text⟩, some ⟨c.entity.sortField, .text⟩⟩)
    (hmin : 0 < c.settings.minCap) (hf : s.faults.failures = []) {q : KeyQuery} {records : List Record}
    (hfields : q.fields.getD [] = [])
    (hn : Definition.aliasCount? q.sort + 2 + Definition.aliasCount? q.filter < Numeral.natBound)
    (h : (c.queryAll suffix q s).1 = .ok records) :
    Found t (q.wants c.entity) (fun a b => ∃ x y, a.find c.entity.sortField = some (.text x) ∧
        b.find c.entity.sortField = some (.text y) ∧
        if q.paging.descending then Cursor.utf8 y < Cursor.utf8 x else Cursor.utf8 x < Cursor.utf8 y) records := by
  obtain ⟨what, hidden, page, hselect, hpage, rfl⟩ := pageOf_eq_ok.1 h
  have hpaged := fun keyFields => pagedFields_all hfields keyFields (unpaged q.paging)
  obtain ⟨key, hdef, htable, hindex, hkind, hhidden, hasks⟩ := serves_byKey hsuffix hkey (by rw [hpaged]; exact hn)
    hselect
  rw [hpaged] at hhidden hasks
  subst hhidden
  have hnumber : t.shape.key.partition.type ≠ .number := by rw [hkey]; exact nofun
  have hfound := recordsOf_found hs hnumber hmin (by rw [htable]; exact ht) hf hasks hpage
  rw [hindex, Selection.forward, hkind] at hfound
  have horder : t.shape.readOrder none = [some ⟨c.entity.partitionField, .text⟩, some ⟨c.entity.sortField, .text⟩] := by
    rw [TableShape.readOrder, hkey]
    rfl
  refine hfound.imp (q := q.wants c.entity) (fun item hi => ?_) (fun a b ha hb hab => ?_)
  · rw [(keyDefinition_ok hdef).2]
    exact wants_byKey hs hi
  rw [KeyQuery.wants, Bool.and_eq_true, Bool.and_eq_true, decide_eq_true_iff] at ha hb
  change Table.Precedes (t.shape.readOrder none) _ a b at hab
  rw [horder] at hab
  obtain ⟨x, y, hxa, hyb, hlt⟩ := utf8_lt_of_precedes hab ha.1.1 hb.1.1
  refine ⟨x, y, hxa, hyb, ?_⟩
  change if !q.paging.descending then _ else _ at hlt
  cases hd : q.paging.descending <;> simpa [hd] using hlt

theorem indexQueryAll_found (hsuffix : ∀ ch ∈ suffix.toList, ch.isAlphanum = true)
    (ht : s.tables.find c.entity.table = some t) (hs : t.Sound)
    (hkey : t.shape.key = ⟨⟨c.entity.partitionField, .text⟩, some ⟨c.entity.sortField, .text⟩⟩)
    (hmin : 0 < c.settings.minCap) (hf : s.faults.failures = []) {q : IndexQuery} {records : List Record}
    {i : EntityIndex} {index : IndexShape} {first second : KeyType} (hfields : q.fields.getD [] = [])
    (hn : Definition.aliasCount? q.sort + 2 + Definition.aliasCount? q.filter < Numeral.natBound)
    (hi : c.entity.indexes.find? (fun i => i.name = q.index) = some i) (hcarried : i.carriedFields = [])
    (hindex : t.shape.index? q.index = some index)
    (hindexKey : index.key = ⟨⟨i.partitionField, first⟩, some ⟨i.sortField, second⟩⟩)
    (h : (c.indexQueryAll suffix q s).1 = .ok records) :
    Found t (q.wants i)
      (Table.Precedes [some ⟨i.partitionField, first⟩, some ⟨i.sortField, second⟩,
        some ⟨c.entity.partitionField, .text⟩, some ⟨c.entity.sortField, .text⟩] (!q.paging.descending)) records := by
  obtain ⟨what, hidden, page, hselect, hpage, rfl⟩ := pageOf_eq_ok.1 h
  have hall : (q.fields <|> carriedBy i (indexKeyFields c.entity i)).getD [] = [] := by
    have hcarries : carriedBy i (indexKeyFields c.entity i) = none := by
      simp [carriedBy, EntityIndex.carries, hcarried]
    rw [hcarries]
    cases hq : q.fields with
    | none => rfl
    | some fields => rw [hq] at hfields; exact hfields
  have hpaged := fun keyFields => pagedFields_all hall keyFields (unpaged q.paging)
  have hname : i.name = q.index := by simpa using List.find?_some hi
  obtain ⟨key, hdef, htable, hindexIn, hkind, hhidden, hasks⟩ :=
    serves_byIndex (q := { q with paging := unpaged q.paging }) hsuffix hkey hi (by rw [hname]; exact hindex) hindexKey
      rfl (by rw [hpaged]; exact hn) hselect
  rw [hpaged] at hhidden hasks
  subst hhidden
  have hnumber : t.shape.key.partition.type ≠ .number := by rw [hkey]; exact nofun
  have hfound := recordsOf_found hs hnumber hmin (by rw [htable]; exact ht) hf hasks hpage
  rw [hindexIn, Selection.forward, hkind] at hfound
  have horder : t.shape.readOrder (some index) = [some ⟨i.partitionField, first⟩, some ⟨i.sortField, second⟩,
      some ⟨c.entity.partitionField, .text⟩, some ⟨c.entity.sortField, .text⟩] := by
    rw [TableShape.readOrder, hkey]
    simp only [hindexKey]
    rfl
  have hmem : index ∈ t.shape.indexes := List.mem_of_find?_eq_some hindex
  refine hfound.imp (fun item hitem => ?_) (fun a b _ _ hab => horder ▸ hab)
  rw [(keyDefinition_ok hdef).2]
  exact wants_byIndex hs hitem hmem hindexKey

/--
**Queries find what is there.** As long as no failure is planned and the aliases of a request do not run out, all
records that a query by the keys of the table finds are those of just the items that it looks for, each once, in the
order of the bytes of their sort keys. A query by the keys of an index that carries all fields finds the items that it
looks for in the order of the keys of the index and the table.
-/
theorem finds_wanted {shape : TableShape} (hsuffix : ∀ ch ∈ suffix.toList, ch.isAlphanum = true)
    (ht : s.tables.find c.entity.table = some t) (hreached : t.Reached shape)
    (hkey : shape.key = ⟨⟨c.entity.partitionField, .text⟩, some ⟨c.entity.sortField, .text⟩⟩)
    (hmin : 1 ≤ c.settings.minCap) (hf : s.faults.failures = []) :
    (∀ (q : KeyQuery) (records : List Record), q.fields.getD [] = [] →
      Definition.aliasCount? q.sort + 2 + Definition.aliasCount? q.filter < Numeral.natBound →
      (c.queryAll suffix q s).1 = .ok records →
      Found t (q.wants c.entity) (fun a b => ∃ x y, a.find c.entity.sortField = some (.text x) ∧
        b.find c.entity.sortField = some (.text y) ∧
        if q.paging.descending then Cursor.utf8 y < Cursor.utf8 x else Cursor.utf8 x < Cursor.utf8 y) records) ∧
    ∀ (q : IndexQuery) (records : List Record) (i : EntityIndex) (index : IndexShape) (first second : KeyType),
      q.fields.getD [] = [] →
      Definition.aliasCount? q.sort + 2 + Definition.aliasCount? q.filter < Numeral.natBound →
      c.entity.indexes.find? (fun i => i.name = q.index) = some i → i.carriedFields = [] →
      shape.index? q.index = some index →
      index.key = ⟨⟨i.partitionField, first⟩, some ⟨i.sortField, second⟩⟩ →
      (c.indexQueryAll suffix q s).1 = .ok records →
      Found t (q.wants i)
        (Table.Precedes [some ⟨i.partitionField, first⟩, some ⟨i.sortField, second⟩,
          some ⟨c.entity.partitionField, .text⟩, some ⟨c.entity.sortField, .text⟩] (!q.paging.descending)) records := by
  have hs := hreached.sound
  rw [← hreached.shape_eq] at hkey
  constructor
  · intro q records hfields hn h
    exact queryAll_found hsuffix ht hs hkey hmin hf hfields hn h
  · intro q records i index first second hfields hn hi hcarried hindex hindexKey h
    rw [← hreached.shape_eq] at hindex
    exact indexQueryAll_found hsuffix ht hs hkey hmin hf hfields hn hi hcarried hindex hindexKey h

/-- Two items, of which a query with a filter finds one, and one by an index on numbers both, downwards. -/
theorem finds_wanted_numbers :
    let shape : TableShape :=
      ⟨"t", ⟨⟨"pk", .text⟩, some ⟨"id", .text⟩⟩, [⟨"by", ⟨⟨"g", .number⟩, some ⟨"n", .number⟩⟩⟩]⟩
    let item (g id n pk : String) : Item := [("g", .number g), ("id", .text id), ("n", .number n), ("pk", .text pk)]
    let c : Collection :=
      { entity := { table := "t", partitionValue := "p", partitionField := "pk"
                    indexes := [{ name := "by", partitionField := "g", sortField := "n" }] } }
    let q : KeyQuery := { partition := "p", filter := some ⟨[.op "n" (.compare .lt) (.number (.whole 9))], [], []⟩ }
    let qi : IndexQuery :=
      { index := "by", partitionField := "g", partition := .number (.whole 1), paging := { descending := true } }
    let found := [Item.toRecord (item "1" "b" "7" "p")]
    let foundByIndex := [Item.toRecord (item "1.0" "a" "8" "r"), Item.toRecord (item "1" "b" "7" "p")]
    ∃ t : Table, t.Reached shape ∧
      let s : MemoryStore := ⟨[("t", t)], { ceiling := some 1 }⟩
      ((c.queryAll "5f" q s).1 = .ok found ∧
        Found t (q.wants c.entity) (fun a b => ∃ x y, a.find "id" = some (.text x) ∧ b.find "id" = some (.text y) ∧
          Cursor.utf8 x < Cursor.utf8 y) found) ∧
      (c.indexQueryAll "5f" qi s).1 = .ok foundByIndex ∧
        Found t (qi.wants { name := "by", partitionField := "g", sortField := "n" })
          (Table.Precedes [some ⟨"g", .number⟩, some ⟨"n", .number⟩, some ⟨"pk", .text⟩, some ⟨"id", .text⟩] false)
          foundByIndex := by
  intro shape item c q qi found foundByIndex
  have hordered : ∀ g id n pk, Fields.Ordered (item g id n pk) := fun _ _ _ _ =>
    List.pairwise_map.1 (show ["g", "id", "n", "pk"].Pairwise (· < ·) by decide)
  have hreached : Table.Reached shape ⟨shape, [(.text "p", [(some (.text "b"), item "1" "b" "7" "p")]),
      (.text "r", [(some (.text "a"), item "1.0" "a" "8" "r")])]⟩ :=
    .put (.put .empty (hordered "1" "b" "7" "p") (by rfl)) (hordered "1.0" "a" "8" "r") (by rfl)
  have hsuffix : ∀ ch ∈ "5f".toList, ch.isAlphanum = true := List.all_eq_true.1 rfl
  refine ⟨_, hreached, ?_⟩
  intro s
  obtain ⟨hq, hqi⟩ := @finds_wanted c s _ "5f" shape hsuffix rfl hreached rfl (by decide) rfl
  have hfound : (c.queryAll "5f" q s).1 = .ok found := pageOf_eq_ok.2
    ⟨{ table := "t"
       expressions := { keyCondition := some "#n05f = :v15f", filter := some "#n25f < :v35f"
                        names := [("#n05f", "pk"), ("#n25f", "n")]
                        values := [(":v15f", .text "p"), (":v35f", .number "9")] }
       keyFields := ["pk", "id"] }, [], ⟨found, none⟩, by unfold c q; rfl, by cbv, rfl⟩
  have hfoundByIndex : (c.indexQueryAll "5f" qi s).1 = .ok foundByIndex := pageOf_eq_ok.2
    ⟨{ table := "t", index := some "by"
       expressions := { keyCondition := some "#n05f = :v15f", names := [("#n05f", "g")]
                        values := [(":v15f", .number "1")] }
       keyFields := ["pk", "id", "g", "n"] }, [], ⟨foundByIndex, none⟩, by unfold c qi; rfl,
      by unfold foundByIndex; cbv, rfl⟩
  exact ⟨⟨hfound, hq q _ rfl (by decide) hfound⟩, hfoundByIndex,
    hqi qi _ _ _ _ _ rfl (by decide) rfl rfl rfl rfl hfoundByIndex⟩

end Collection

end RecordStore
