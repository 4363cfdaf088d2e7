import RecordStore.Proofs.Collection.Asking
import RecordStore.Proofs.Collection.Sharing

/-!
# Entities under one index

The entities of a table have partitions of their own, but an index cuts across them. Reads by ids and queries of the own
partition show items of the entity alone, whatever the faults are: their keys or their filter say which partition. A
query by an index says nothing of it.

**`Collection.found_own_iff`**: what a query by an index finds, at once or page after page, are just the items that it
looks for, of whatever entity. They are all of the own entity only if no item of another one is looked for.
`Collection.found_foreign` is a query that finds a record of another entity.
-/

namespace RecordStore

open Call (Relates)
open MemoryStore (Twins Under)

/-- An item is in the partition of an entity. -/
def Entity.Owns (e : Entity) (item : Item) : Prop :=
  item.find e.partitionField = some (.text e.partitionValue)

/-- Records that are shown of items of a table of which `p` holds: some fields of each. -/
def Shown (t : Table) (p : Item → Prop) (fields : List String) (records : List Record) : Prop :=
  ∀ record ∈ records, ∃ item ∈ t.items, p item ∧ record = (item.only fields).toRecord

/-- What is found under the key of an id is in the partition of the entity. -/
theorem MemoryStore.Under.owned {e : Entity} {t : Table} {item : Item} (h : Under e t item) (hs : t.Sound)
    (hkey : t.shape.key = e.keyShape) (hne : e.partitionField ≠ e.sortField) : item ∈ t.items ∧ e.Owns item := by
  obtain ⟨id, hget⟩ := h
  rw [Table.get_eq (Entity.address_key hne hkey id)] at hget
  obtain ⟨hitem, ⟨value, sort⟩, haddress, hvalue, -⟩ := hs.at?_eq_some_iff.1 (Except.ok.inj hget)
  obtain ⟨hfound, -⟩ := KeyField.value_ok.1 (Table.address_parts haddress).1
  rw [hkey] at hfound
  obtain rfl : value = .text e.partitionValue := hvalue
  exact ⟨hitem, hfound⟩

namespace Collection

variable {c : Collection} {t : Table} {suffix : String} {s : MemoryStore} {fields : Option (List String)}

/-! ## What is shown -/

/-- Of a record that is read by its id, some fields of an item in the own partition are shown. -/
theorem shown_of_get (hsuffix : ∀ ch ∈ suffix.toList, ch.isAlphanum = true) (hs : t.Sound)
    (hkey : t.shape.key = c.entity.keyShape) (hne : c.entity.partitionField ≠ c.entity.sortField)
    (ht : s.tables.find c.entity.table = some t) (hn : (fields.getD []).length < Numeral.natBound) {id : String}
    {found : Option Record} (h : (c.get suffix id fields s).1 = .ok found) :
    Shown t c.entity.Owns (fields.getD []) found.toList := by
  have hrelates : Relates (Twins c.entity.table t) _ (c.get suffix id fields) (c.get "" id none) :=
    relates_get hsuffix hs hn id
  obtain ⟨whole, -, rfl, hwhole⟩ := hrelates.answer (s := s) (t := s) ⟨rfl, ht⟩ h
  intro record hrecord
  obtain ⟨record, hmem, rfl⟩ := Option.map_eq_some_iff.1 (Option.mem_toList.1 hrecord)
  obtain ⟨item, hget, rfl⟩ := hwhole record hmem
  obtain ⟨hitem, hown⟩ := Under.owned ⟨id, hget⟩ hs hkey hne
  exact ⟨item, hitem, hown, (item.toRecord_only _).symm⟩

/-- Of records that are read by their ids, some fields of items in the own partition are shown. -/
theorem shown_of_batchGet (hsuffix : ∀ ch ∈ suffix.toList, ch.isAlphanum = true) (hs : t.Sound)
    (hkey : t.shape.key = c.entity.keyShape) (hne : c.entity.partitionField ≠ c.entity.sortField)
    (ht : s.tables.find c.entity.table = some t) (hn : (fields.getD []).length < Numeral.natBound) {ids : List String}
    {records : List Record} (h : (c.batchGet suffix ids fields s).1 = .ok records) :
    Shown t c.entity.Owns (fields.getD []) records := by
  have hrelates : Relates (Twins c.entity.table t) _ (c.batchGet suffix ids fields) (c.batchGet "" ids none) :=
    relates_batchGet hsuffix hs hn ids
  obtain ⟨whole, -, honly⟩ := hrelates.answer (s := s) (t := s) ⟨rfl, ht⟩ h
  intro record hrecord
  rw [honly.records] at hrecord
  obtain ⟨record, hmem, rfl⟩ := List.mem_map.1 hrecord
  obtain ⟨item, hunder, rfl⟩ := honly.stored record hmem
  obtain ⟨hitem, hown⟩ := hunder.owned hs hkey hne
  exact ⟨item, hitem, hown, (item.toRecord_only _).symm⟩

/-- **On a page of a query** some fields of items are shown that the query looks for, wherever its faults end it. -/
theorem shown_of_page (hsuffix : ∀ ch ∈ suffix.toList, ch.isAlphanum = true) (hs : t.Sound)
    (hfits : c.entity.Fits t.shape) (ht : s.tables.find c.entity.table = some t) {q : PageQuery}
    (hn : q.aliasCount c.entity < Numeral.natBound) {page : PageOfRecords} (h : (c.page suffix q s).1 = .ok page) :
    Shown t (fun item => q.wants c.entity item = true) (q.fields c.entity) page.items := by
  have hrelates : Relates (Twins c.entity.table t) _ (c.page suffix q) (c.page "" (q.asking (some []))) :=
    relates_page hsuffix nofun hs hfits hn
  obtain ⟨whole, -, rfl, items, hitems, hwhole⟩ := hrelates.answer (s := s) (t := s) ⟨rfl, ht⟩ h
  intro record hrecord
  rw [PageOfRecords.only, hwhole, List.map_map] at hrecord
  obtain ⟨item, hmem, rfl⟩ := List.mem_map.1 hrecord
  obtain ⟨hitem, hwants⟩ := hitems item hmem
  exact ⟨item, hitem, hwants, (item.toRecord_only _).symm⟩

/-! ## What is found -/

/-- Which page is asked for does not matter for the checks. -/
theorem isOk_select_withPaging (c : Collection) (suffix : String) (q : PageQuery) (paging : Paging) :
    (c.select suffix (q.withPaging paging)).isOk = (c.select suffix q).isOk := by
  have hagree := c.select_agree suffix suffix q none paging
  have hagree' := c.select_agree suffix suffix (q.withPaging paging) none paging
  have hsame : ((q.withPaging paging).asking none).withPaging paging = (q.asking none).withPaging paging := by
    cases q <;> rfl
  rw [hagree.isOk_eq, hagree'.isOk_eq, hsame]

section

variable {q : PageQuery} {items : List Item} (hs : t.Sound) (hfits : c.entity.Fits t.shape)
  (hn : q.aliasCount c.entity < Numeral.natBound) (hmin : 1 ≤ c.settings.minCap) (hselect : (c.select suffix q).isOk)

include hs hfits hn hselect

/-- There is one list of what a query looks for that passes the checks. -/
theorem exists_following (hsuffix : ∀ ch ∈ suffix.toList, ch.isAlphanum = true) :
    ∃ items, Following t (q.readOrder c.entity t.shape) q.ascending none (q.wants c.entity) items := by
  cases hsel : c.select suffix q with
  | error e =>
    rw [hsel] at hselect
    cases hselect
  | ok selected =>
    obtain ⟨w, hreads⟩ := exists_reads hsuffix hs hfits hn hsel
    obtain ⟨items, hfollowing, -⟩ := hreads.exists_following
    exact ⟨items, hfollowing⟩

variable (hfollowing : Following t (q.readOrder c.entity t.shape) q.ascending none (q.wants c.entity) items)
  (ht : s.tables.find c.entity.table = some t) (hf : s.faults.failures = [])

include hmin hfollowing ht hf

/-- Page after page, a client finds what a query looks for. -/
theorem collect_following (hsize : ∀ n ∈ q.paging.pageSize, n + 1 < Numeral.natBound) {suffixes : List String}
    (hsuffixes : ∀ suffix ∈ suffixes, ∀ ch ∈ suffix.toList, ch.isAlphanum = true)
    (hlen : items.length < suffixes.length) :
    (c.collect q suffixes none s).1 = .ok (some (items.map (q.shown c.entity))) := by
  refine collect_eq_shown (served_of_fits hs hfits hn) (Page.capOf_pos hmin hsize) (fun suffix' hmem => ?_) ht hf rfl
    nofun hfollowing hlen
  exact ⟨hsuffixes suffix' hmem, by rw [c.isOk_select q suffix' suffix]; exact hselect⟩

/-- A page of no given size holds all that a query looks for. -/
theorem page_following (hsuffix : ∀ ch ∈ suffix.toList, ch.isAlphanum = true) :
    (c.page suffix (q.withPaging (unpaged q.paging)) s).1 = .ok ⟨items.map (q.shown c.entity), none⟩ := by
  have hserved : c.Served (q.withPaging (unpaged q.paging)) t :=
    served_of_fits hs hfits (by rw [PageQuery.aliasCount_withPaging]; exact hn)
  have hnone : (q.withPaging (unpaged q.paging)).paging.pageSize = none ∧
      (q.withPaging (unpaged q.paging)).paging.cursor = none := by
    rw [PageQuery.paging_withPaging]
    exact ⟨rfl, rfl⟩
  rw [← c.isOk_select_withPaging suffix q (unpaged q.paging)] at hselect
  rw [← PageQuery.readOrder_withPaging c.entity (unpaged q.paging), ← PageQuery.wants_withPaging c.entity
    (unpaged q.paging), ← PageQuery.ascending_withPaging (unpaged q.paging) q rfl] at hfollowing
  have hanswer := page_eq_answer hserved ht hf hfollowing hsuffix (by rw [hnone.1]; rfl)
  rw [PageQuery.withPaging_first hnone.2] at hanswer
  rw [hanswer, answer]
  cases hsel : c.select suffix (q.withPaging (unpaged q.paging)) with
  | error e =>
    rw [hsel] at hselect
    cases hselect
  | ok selected =>
    have hcap : Page.capOf c.settings (q.withPaging (unpaged q.paging)).paging ≠ some 0 := fun hzero =>
      absurd (Page.capOf_pos hmin (by simp [unpaged]) 0 hzero) (Nat.lt_irrefl 0)
    dsimp only
    rw [if_neg hcap, PageQuery.shown_withPaging]
    rfl

end

/--
**What is found is of the own entity only where nothing else is looked for.** Of records that are read by their ids, and
on pages of a query in the own partition, items of the entity alone are shown, wherever faults end the reads. On a page
of a query by an index items are shown that the query looks for; they have the keys of the index, of whatever entity
they are. A query by an index that passes the checks finds just these items, at once and page after page, if no failure
is planned. So it finds items of the entity alone if and only if it looks for no other item of the table.
-/
theorem found_own_iff {shape : TableShape} (hsuffix : ∀ ch ∈ suffix.toList, ch.isAlphanum = true)
    (hne : c.entity.partitionField ≠ c.entity.sortField) (hreached : t.Reached shape) (hfits : c.entity.Fits shape) :
    (∀ s : MemoryStore, s.tables.find c.entity.table = some t →
      (∀ id fields found, (fields.getD []).length < Numeral.natBound → (c.get suffix id fields s).1 = .ok found →
        Shown t c.entity.Owns (fields.getD []) found.toList) ∧
      (∀ ids fields records, (fields.getD []).length < Numeral.natBound →
        (c.batchGet suffix ids fields s).1 = .ok records → Shown t c.entity.Owns (fields.getD []) records) ∧
      ∀ (q : PageQuery) page, q.aliasCount c.entity < Numeral.natBound → (c.page suffix q s).1 = .ok page →
        Shown t (fun item => q.wants c.entity item = true) (q.fields c.entity) page.items ∧
        (q.OfOwn c.entity → Shown t c.entity.Owns (q.fields c.entity) page.items)) ∧
    ∀ q : IndexQuery, (PageQuery.byIndex q).aliasCount c.entity < Numeral.natBound → 1 ≤ c.settings.minCap →
      (∀ n ∈ q.paging.pageSize, n + 1 < Numeral.natBound) → (c.selectByIndex suffix q).isOk →
      ∃ items, Following t ((PageQuery.byIndex q).readOrder c.entity shape) (!q.paging.descending) none
          ((PageQuery.byIndex q).wants c.entity) items ∧
        (∀ (s : MemoryStore) (suffixes : List String), s.tables.find c.entity.table = some t →
          s.faults.failures = [] → (∀ suffix ∈ suffixes, ∀ ch ∈ suffix.toList, ch.isAlphanum = true) →
          items.length < suffixes.length →
          (c.indexQueryAll suffix q s).1 = .ok (items.map ((PageQuery.byIndex q).shown c.entity)) ∧
          (c.collect (.byIndex q) suffixes none s).1 =
            .ok (some (items.map ((PageQuery.byIndex q).shown c.entity)))) ∧
        ((∀ item ∈ items, c.entity.Owns item) ↔
          ∀ item ∈ t.items, (PageQuery.byIndex q).wants c.entity item = true → c.entity.Owns item) := by
  obtain rfl := hreached.shape_eq
  have hs := hreached.sound
  refine ⟨fun s ht => ⟨fun id fields found hn h => ?_, fun ids fields records hn h => ?_, fun q page hn h => ?_⟩,
    fun q hn hmin hsize hselect => ?_⟩
  · exact shown_of_get hsuffix hs hfits.key hne ht hn h
  · exact shown_of_batchGet hsuffix hs hfits.key hne ht hn h
  · have hshown := shown_of_page hsuffix hs hfits ht hn h
    refine ⟨hshown, fun hown record hrecord => ?_⟩
    obtain ⟨item, hitem, hwants, hrecord⟩ := hshown record hrecord
    exact ⟨item, hitem, hown.find hwants, hrecord⟩
  · obtain ⟨items, hfollowing⟩ := exists_following (q := .byIndex q) hs hfits hn hselect hsuffix
    refine ⟨items, hfollowing, fun s suffixes ht hf hsuffixes hlen => ⟨?_, ?_⟩, ?_⟩
    · have hpage := page_following (q := .byIndex q) hs hfits hn hmin hselect hfollowing ht hf hsuffix
      rw [indexQueryAll_eq, Call.map_eq]
      exact congrArg (Functor.map _) hpage
    · exact collect_following (q := .byIndex q) hs hfits hn hmin hselect hfollowing ht hf hsize hsuffixes hlen
    · constructor
      · exact fun hown item hitem hwants => hown item ((hfollowing.mem item).2 ⟨hitem, hwants, nofun⟩)
      · intro hown item hmem
        obtain ⟨hitem, hwants, -⟩ := (hfollowing.mem item).1 hmem
        exact hown item hitem hwants

/-- A table with records of two entities under one value of the index, and a query whose filter asks for its own. -/
theorem found_own_filtered :
    let shape : TableShape :=
      ⟨"t", ⟨⟨"pk", .text⟩, some ⟨"id", .text⟩⟩, [⟨"by", ⟨⟨"g", .text⟩, some ⟨"n", .text⟩⟩⟩]⟩
    let item (entity id n : String) : Item := [("g", .text "1"), ("id", .text id), ("n", .text n), ("pk", .text entity)]
    let c : Collection :=
      { entity := { table := "t", partitionValue := "user", partitionField := "pk"
                    indexes := [{ name := "by", partitionField := "g", sortField := "n" }] } }
    let q : IndexQuery :=
      { index := "by", partitionField := "g", partition := .string "1"
        filter := some (Definition.equals {} "pk" (.string "user")) }
    ∃ t : Table, t.Reached shape ∧ item "order" "b" "2" ∈ t.items ∧
      let s : MemoryStore := ⟨[("t", t)], {}⟩
      ∃ items : List Item, (∀ item ∈ items, c.entity.Owns item) ∧
        (c.indexQueryAll "5f" q s).1 = .ok (items.map ((PageQuery.byIndex q).shown c.entity)) := by
  intro shape item c q
  have hordered : ∀ entity id n, Fields.Ordered (item entity id n) := fun _ _ _ =>
    List.pairwise_map.1 (show ["g", "id", "n", "pk"].Pairwise (· < ·) by decide)
  obtain ⟨t, ht⟩ : ∃ t : Table, ⟨shape, [(.text "user", [(some (.text "a"), item "user" "a" "1")]),
      (.text "order", [(some (.text "b"), item "order" "b" "2")])]⟩ = t := ⟨_, rfl⟩
  have hreached : t.Reached shape := by
    subst ht
    exact .put (.put .empty (hordered "user" "a" "1") (by rfl)) (hordered "order" "b" "2") (by rfl)
  have hitems : t.items = [item "user" "a" "1", item "order" "b" "2"] := by
    subst ht
    rfl
  have hfits : c.entity.Fits shape := .of_index rfl rfl rfl rfl
  have hselect : (c.selectByIndex "5f" q).isOk := by
    unfold c q
    cbv
  have hsuffix : ∀ ch ∈ "5f".toList, ch.isAlphanum = true := List.all_eq_true.1 rfl
  obtain ⟨-, hfound⟩ := found_own_iff (c := c) hsuffix (by decide) hreached hfits
  obtain ⟨items, -, hall, hown⟩ := hfound q (by decide) (by decide) (by simp [q]) hselect
  refine ⟨t, hreached, by rw [hitems]; exact List.mem_cons_of_mem _ List.mem_cons_self, items, hown.2 ?_, ?_⟩
  · intro found hfound hwants
    rw [hitems] at hfound
    rcases List.mem_pair.1 hfound with rfl | rfl
    · rfl
    · cases hwants
  · exact (hall ⟨[("t", t)], {}⟩ (List.replicate (items.length + 1) "6a") rfl rfl
      (fun suffix hsuffix => by rw [(List.mem_replicate.1 hsuffix).2]; exact List.all_eq_true.1 rfl) (by simp)).1

/-- A scan shows the one record of the entity, and a query by an index also that of another one. -/
theorem found_foreign :
    let shape : TableShape :=
      ⟨"t", ⟨⟨"pk", .text⟩, some ⟨"id", .text⟩⟩, [⟨"by", ⟨⟨"g", .text⟩, some ⟨"n", .text⟩⟩⟩]⟩
    let item (entity id n : String) : Item := [("g", .text "1"), ("id", .text id), ("n", .text n), ("pk", .text entity)]
    let c : Collection :=
      { entity := { table := "t", partitionValue := "user", partitionField := "pk"
                    indexes := [{ name := "by", partitionField := "g", sortField := "n" }] } }
    let q : IndexQuery := { index := "by", partitionField := "g", partition := .string "1" }
    let t : Table :=
      ⟨shape, [(.text "user", [(some (.text "a"), item "user" "a" "1")]),
        (.text "order", [(some (.text "b"), item "order" "b" "2")])]⟩
    let s : MemoryStore := ⟨[("t", t)], {}⟩
    (c.scan "5f" {} s).1 = .ok ⟨[(item "user" "a" "1").toRecord], none⟩ ∧
      (c.indexQueryAll "5f" q s).1 = .ok [(item "user" "a" "1").toRecord, (item "order" "b" "2").toRecord] ∧
      ¬ c.entity.Owns (item "order" "b" "2") := by
  intro shape item c q t s
  refine ⟨?_, ?_, ?_⟩
  · unfold c s t shape item
    cbv
  · unfold c q s t shape item
    cbv
  · intro hown
    have hother : (item "order" "b" "2").find "pk" = some (.text "order") := rfl
    have hsame : some (Attribute.text "order") = some (.text "user") := hother.symm.trans hown
    exact absurd (Attribute.text.inj (Option.some.inj hsame)) (by decide)

end Collection

end RecordStore
