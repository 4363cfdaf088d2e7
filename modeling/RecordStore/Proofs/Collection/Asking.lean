import Mathlib
import RecordStore.Proofs.Collection.Addressing
import RecordStore.Proofs.Collection.Pages
import RecordStore.Proofs.Paging.Narrowing
import RecordStore.Proofs.Query.Refusals

/-!
# Asking for fields

To ask for some fields of records changes nothing but what is shown of them. `Record.only` are the fields of a record
that are asked for, `Collection.select_agree` says that a query is refused for the same reason with any fields, and
`Collection.relates_page` that its pages hold the same stored items.
-/

namespace RecordStore

open Call (Relates relates_bind_same relates_ofExcept relates_pure relates_throw)
open MemoryStore (Twins)

/-- The fields of a record that are asked for; all if there are none. -/
def Record.only (fields : List String) (record : Record) : Record :=
  if fields.isEmpty then record else Fields.restrict record fields

/-- A page with the fields of its records that are asked for. -/
def PageOfRecords.only (fields : List String) (page : PageOfRecords) : PageOfRecords :=
  ⟨page.items.map (Record.only fields), page.nextCursor⟩

theorem Item.toRecord_only (fields : List String) (item : Item) :
    (item.only fields).toRecord = item.toRecord.only fields := by
  rw [Item.only, Record.only]
  split
  · rfl
  · rw [toRecord_eq_map, toRecord_eq_map, Fields.restrict, Fields.restrict, List.filter_map]
    rfl

namespace PageQuery

variable (e : Entity) (fields : Option (List String)) (q : PageQuery)

@[simp] theorem paging_asking : (q.asking fields).paging = q.paging := by
  cases q <;> rfl

theorem withPaging_asking : (q.asking fields).withPaging q.paging = q.asking fields := by
  cases q <;> rfl

@[simp] theorem ranges_asking : (q.asking fields).ranges e = q.ranges e := by
  cases q <;> rfl

@[simp] theorem passes_asking : (q.asking fields).passes e = q.passes e := by
  cases q <;> rfl

@[simp] theorem index?_asking : (q.asking fields).index? e = q.index? e := by
  cases q <;> rfl

@[simp] theorem ascending_asking : (q.asking fields).ascending = q.ascending := by
  cases q <;> rfl

@[simp] theorem wants_asking : (q.asking fields).wants e = q.wants e := by
  cases q <;> rfl

@[simp] theorem keyFields_asking : (q.asking fields).keyFields e = q.keyFields e := by
  cases q <;> rfl

@[simp] theorem fields_asking (fields : List String) : (q.asking (some fields)).fields e = fields := by
  cases q <;> rfl

/-- No more aliases are taken if no fields are asked for. -/
theorem aliasCount_whole : (q.asking (some [])).aliasCount e ≤ q.aliasCount e := by
  have hconditions : (q.asking (some [])).conditions = q.conditions := by cases q <;> rfl
  simp only [aliasCount, fields_asking, keyFields_asking, hconditions, List.length_nil]
  omega

end PageQuery

/-- What is read for a selection says of every item what was asked, and returns whole items if all fields are read. -/
theorem Selection.Asks.reads {what : Selection} {t : Table} {w : TableRead} {descending : Bool}
    {range filter : Item → Bool} {fields : List String} (h : what.Asks t.shape range filter fields)
    (hw : what.plan t descending = .ok w) :
    (∀ item, w.meets w.keyCondition item = .ok (range item) ∧ w.meets w.filter item = .ok (filter item)) ∧
      (fields = [] → w.projection = none) := by
  rw [Selection.plan_eq] at hw
  obtain ⟨-, hkey, hfilter, hprojection, hnames, hvalues, -⟩ := MemoryStore.tableRead_ok hw
  refine ⟨h.meets hnames hvalues hkey hfilter, fun hnil => ?_⟩
  subst hnil
  have hnone : what.expressions.projection = none := by
    cases hp : what.expressions.projection with
    | none => rfl
    | some text =>
      have hfields := h.fields
      rw [hp] at hfields
      cases hfields with
      | fields hne => exact absurd rfl hne
  rw [Page.request, hnone] at hprojection
  exact (Except.ok.inj hprojection).symm

/-! ## Items under their keys -/

namespace MemoryStore

variable {t : Table} {name : String} {fields : List String} {key : Key}

/-- The items under some keys of an entity. -/
def Under (e : Entity) (t : Table) (item : Item) : Prop := ∃ id, t.get (e.key id) = .ok (some item)

/-- What a projection on some fields keeps of stored items. -/
theorem projected_only {names : NameAliases} {text : Option String} {paths : Option (List Path)} (hs : t.Sound)
    (h : Projects names text fields) (hpaths : parseOptional Path.parseList text = .ok paths) {item : Item}
    (hitem : item ∈ t.items) : projected names paths item = item.only fields :=
  h.output (w := { projection := paths, names }) hpaths (hs.ordered item hitem)

/-- **A get of some fields** is one of the whole item with these fields alone. -/
theorem relates_get (hs : t.Sound) {names : NameAliases} {text : Option String} (h : Projects names text fields) :
    Relates (Twins name t) (fun r r' => r.item = r'.item.map (Item.only fields) ∧
        ∀ item ∈ r'.item, t.get key = .ok (some item))
      (get { table := name, key, projection := text, names }) (get { table := name, key }) := by
  obtain ⟨paths, hpaths⟩ := h.parse
  rintro s _ ⟨rfl, ht⟩
  have hstate : ∀ r, (get r s).2 = { s with faults := (s.faults.note .getItem).2 } := fun r => by rw [get, record_ask]
  rw [hstate, hstate, get_answer hpaths ht, get_answer (r := { table := name, key }) rfl ht]
  refine ⟨⟨rfl, ht⟩, ?_⟩
  refine Agree.bind_same fun _ _ => Agree.bind_same fun found hfound => .ok ?_
  replace hfound : t.get key = .ok found := mapError_eq_ok.1 hfound
  cases found with
  | none => exact ⟨rfl, fun _ h => absurd h (Option.not_mem_none _)⟩
  | some item =>
    refine ⟨?_, fun item' hitem' => by cases hitem'; exact hfound⟩
    exact congrArg some (projected_only hs h hpaths (Table.mem_of_get hfound))

/-! ## Batches -/

theorem relates_record (operation : Operation) :
    Relates (Twins name t) (fun _ _ => True) (record operation) (record operation) := by
  rintro s _ ⟨rfl, ht⟩
  exact ⟨⟨rfl, ht⟩, .refl (fun _ => trivial) _⟩

theorem relates_takeUndone (operation : Operation) :
    Relates (Twins name t) (· = ·) (takeUndone operation) (takeUndone operation) := by
  rintro s _ ⟨rfl, ht⟩
  exact ⟨⟨rfl, ht⟩, .ok rfl⟩

theorem relates_ask {α β : Type} {R : α → β → Prop} {answer : MemoryStore → Except StoreError α}
    {answer' : MemoryStore → Except StoreError β}
    (h : ∀ s : MemoryStore, s.tables.find name = some t → Agree R (answer s) (answer' s)) :
    Relates (Twins name t) R (ask answer) (ask answer') := by
  rintro s _ ⟨rfl, ht⟩
  exact ⟨⟨rfl, ht⟩, h s ht⟩

/-- Two batches for the same keys of an entity, one for some fields and one for whole items. -/
structure Batches (e : Entity) (fields : List String) (b b' : KeyBatch) : Prop where
  keys : b.keys = b'.keys
  own : ∀ key ∈ b'.keys, ∃ id, key = e.key id
  projects : Projects b.names b.projection fields
  whole : b'.projection = none

/-- Two answers to such batches, which leave such batches to do. -/
structure Answers (e : Entity) (t : Table) (fields : List String) (name : String) (r r' : BatchGetResponse) : Prop where
  items : Narrowed (Item.only fields) (Under e t) ((r.items.find name).getD []) ((r'.items.find name).getD [])
  left : Option.Rel (Batches e fields) (r.unprocessed.find name) (r'.unprocessed.find name)

theorem mem_of_mapM {e : Entity} {keys : List Key} {found : List (Option Item)}
    (hown : ∀ key ∈ keys, ∃ id, key = e.key id) (h : keys.mapM (fun key => ofTable (t.get key)) = .ok found) :
    ∀ item, some item ∈ found → Under e t item := by
  have hfound := mapM_eq_ok.1 h
  clear h
  induction hfound with
  | nil => exact fun _ hitem => absurd hitem List.not_mem_nil
  | @cons key first keys found hget _ ih =>
    obtain ⟨⟨id, rfl⟩, hkeys⟩ := List.forall_mem_cons.1 hown
    intro item hitem
    rcases List.mem_cons.1 hitem with rfl | hitem
    · exact ⟨id, mapError_eq_ok.1 hget⟩
    · exact ih hkeys item hitem

theorem getAll_narrows {e : Entity} {b b' : KeyBatch} {paths : Option (List Path)} {keys : List Key} (hs : t.Sound)
    (hb : Batches e fields b b') (hpaths : parseOptional Path.parseList b.projection = .ok paths)
    (hown : ∀ key ∈ keys, ∃ id, key = e.key id) :
    Agree (Narrowed (Item.only fields) (Under e t)) (getAll t b paths keys) (getAll t b' none keys) := by
  refine Agree.bind_same (x := keys.mapM fun key => ofTable (t.get key)) fun found hfound => ?_
  have hunder := mem_of_mapM hown hfound
  have hitems : ∀ item ∈ found.filterMap id, Under e t item := by
    intro item hitem
    obtain ⟨o, ho, rfl⟩ := List.mem_filterMap.1 hitem
    exact hunder item ho
  have heach : ∀ names paths, (found.filterMap fun item => item.map (projected names paths)) =
      (found.filterMap id).map (projected names paths) := fun _ _ => List.map_filterMap.symm
  rw [heach, heach]
  refine .ok ⟨?_, fun item hitem => ?_⟩
  · rw [List.map_map]
    refine List.map_congr_left fun item hitem => ?_
    obtain ⟨id, hget⟩ := hitems item hitem
    exact projected_only hs hb.projects hpaths (Table.mem_of_get hget)
  · obtain ⟨stored, hstored, rfl⟩ := List.mem_map.1 hitem
    exact hitems stored hstored

/-- **A batch get of some fields** is one of whole items with these fields alone. -/
theorem relates_batchGet {e : Entity} {b b' : KeyBatch} (hs : t.Sound) (hb : Batches e fields b b') :
    Relates (Twins name t) (Answers e t fields name) (batchGet ⟨[(name, b)]⟩) (batchGet ⟨[(name, b')]⟩) := by
  obtain ⟨paths, hpaths⟩ := hb.projects.parse
  have hsize : batchSize (·.keys.length) [(name, b)] = batchSize (·.keys.length) [(name, b')] := by
    simp only [batchSize, hb.keys]
  refine (relates_record _).bind fun _ _ _ => Relates.bind (R := fun _ _ => True) (relates_ask fun _ _ => ?_)
    fun _ _ _ => (relates_takeUndone _).bind fun undone _ hundone => relates_ask fun s ht => ?_
  · dsimp only
    rw [hsize]
    exact .refl (fun _ => trivial) _
  · subst hundone
    have htable : s.table? name = .ok t := by rw [table?, ht]
    have hwhole : parseOptional Path.parseList b'.projection = .ok none := by rw [hb.whole]; rfl
    simp only [getTables, htable, hpaths, hwhole, hb.keys]
    have hdone : ∀ key ∈ b'.keys.take (b'.keys.length - min undone b'.keys.length), ∃ id, key = e.key id :=
      fun key hkey => hb.own key (List.mem_of_mem_take hkey)
    refine (getAll_narrows hs hb hpaths hdone).bind fun items items' hitems => .ok ⟨?_, ?_⟩
    · simpa [Fields.find] using hitems
    · dsimp only
      split
      · exact .none
      · simp only [Fields.find, if_true]
        exact .some ⟨rfl, fun key hkey => hb.own key (List.mem_of_mem_drop hkey), hb.projects, hb.whole⟩

end MemoryStore

namespace Collection

variable {c : Collection} {t : Table} {suffix suffix' : String}

/-! ## Refusals -/

theorem compile_agree {α β : Type} {R : α → β → Prop} {x : Compile α} {y : Compile β} (h : Compile.Alike R x y)
    (suffix suffix' : String) : Agree R (compile suffix x) (compile suffix' y) :=
  ((h _ _ trivial).2).mapError _

theorem filterOf_alike (c : Collection) (filter : Option Definition) :
    Compile.Alike (fun _ _ => True) (c.filterOf filter) (c.filterOf filter) := by
  unfold filterOf
  cases filter.filter fun d => !d.isEmpty with
  | none => exact relates_pure trivial
  | some d => exact Compile.definition_alike _ d [] []

theorem expressionsOf_alike (c : Collection) (key : Definition) (filter : Option Definition)
    (fields fields' : List String) :
    Compile.Alike (fun _ _ => True) (c.expressionsOf key filter fields) (c.expressionsOf key filter fields') :=
  (Compile.keyCondition_alike _ key fields fields').bind fun _ _ _ => (c.filterOf_alike filter).bind fun _ _ _ =>
    relates_pure trivial

/-- **A query is refused for the same reason** with any aliases and any fields, and for any page. -/
theorem select_agree (c : Collection) (suffix suffix' : String) (q : PageQuery) (fields : Option (List String))
    (paging : Paging) : Agree (fun _ _ => True) (c.select suffix q)
      (c.select suffix' ((q.asking fields).withPaging paging)) := by
  cases q with
  | byKey q =>
    show Agree _ (c.selectByKey suffix q) (c.selectByKey suffix' { q with fields, paging })
    unfold selectByKey
    split
    · exact .error _
    · refine Agree.bind_same fun key _ => ?_
      exact (compile_agree (c.expressionsOf_alike key q.filter _ _) suffix suffix').bind fun _ _ _ => .ok trivial
  | byIndex q =>
    show Agree _ (c.selectByIndex suffix q) (c.selectByIndex suffix' { q with fields, paging })
    unfold selectByIndex
    refine Agree.bind_same fun index _ => ?_
    dsimp only
    split
    · exact .error _
    · refine Agree.bind_same fun key _ => ?_
      exact (compile_agree (c.expressionsOf_alike key q.filter _ _) suffix suffix').bind fun _ _ _ => .ok trivial
  | byFilter q =>
    show Agree _ (c.selectByFilter suffix q) (c.selectByFilter suffix' { q with fields, paging })
    exact (compile_agree (Compile.definition_alike _ _ _ _) suffix suffix').bind fun _ _ _ => .ok trivial

/-! ## Pages -/

variable {q : PageQuery} {what whole : Selection} {hidden hidden' : List String}

/-- A query that passes the checks is read as the same query for whole records. -/
theorem exists_narrows (hsuffix : ∀ ch ∈ suffix.toList, ch.isAlphanum = true)
    (hsuffix' : ∀ ch ∈ suffix'.toList, ch.isAlphanum = true) (hs : t.Sound) (hfits : c.entity.Fits t.shape)
    (hn : q.aliasCount c.entity < Numeral.natBound) (h : c.select suffix q = .ok (what, hidden))
    (h' : c.select suffix' (q.asking (some [])) = .ok (whole, hidden')) : ∃ w w',
      Reads c q t what hidden w ∧ Reads c (q.asking (some [])) t whole hidden' w' ∧
      Page.Narrows t q.paging.descending whole what w' w ∧
      ((CapBounds.positive? q.paging.pageSize).isSome → ∀ item ∈ t.rows w',
        Page.keyFrom what.keyFields (w.output item) = Page.keyFrom whole.keyFields item) := by
  have hn' : (q.asking (some [])).aliasCount c.entity < Numeral.natBound :=
    Nat.lt_of_le_of_lt (q.aliasCount_whole c.entity) hn
  obtain ⟨w, hr⟩ := exists_reads hsuffix hs hfits hn h
  obtain ⟨w', hr'⟩ := exists_reads hsuffix' hs hfits hn' h'
  obtain ⟨hserves, hkeys⟩ := serves_select hsuffix hfits hn h
  obtain ⟨hserves', hkeys'⟩ := serves_select hsuffix' hfits hn' h'
  have hplan := hr.readable.plan
  have hplan' := hr'.readable.plan
  obtain ⟨hmeets, -⟩ := hserves.asks.reads hplan
  obtain ⟨hmeets', hwhole⟩ := hserves'.asks.reads hplan'
  simp only [PageQuery.ranges_asking, PageQuery.passes_asking, PageQuery.fields_asking, PageQuery.paging_asking,
    PageQuery.keyFields_asking, PageQuery.index?_asking] at hmeets' hwhole hkeys' hplan' hserves'
  obtain ⟨hidden₁, hpaged, -, -, hhides, hkeyed⟩ := pagedFields_eq (some (q.fields c.entity)) what.keyFields q.paging
  obtain ⟨w₁, hplanned⟩ := hserves.asks.planned q.paging.descending
  obtain rfl : w₁ = w := Except.ok.inj (hplanned.plan.symm.trans hplan)
  refine ⟨w₁, w', hr, hr', ⟨?_, ?_, hplan, hplan', ⟨?_, ?_, ?_, ?_, ?_⟩⟩, ?_⟩
  · rw [hr.table, hr'.table]
  · rw [hr.kind, hr'.kind]
    cases q <;> rfl
  · rw [MemoryStore.plan_index hplan, MemoryStore.plan_index hplan']
    exact hserves.index.trans hserves'.index.symm
  · rw [hr.forward, hr'.forward, PageQuery.ascending_asking]
  · intro item _
    rw [(hmeets item).1, (hmeets' item).1]
  · intro item _
    rw [(hmeets item).2, (hmeets' item).2]
  · exact hwhole (by rw [pagedFields_all rfl])
  · intro hsize item hrow
    rw [hkeys', ← hkeys, hplanned.output item (hs.ordered item (Table.mem_rows hrow).1)]
    refine Table.keyFrom_congr fun f hf => Item.find_only item fun hread => ?_
    rw [hpaged] at hread ⊢
    refine hkeyed ?_ hsize f hf
    -- no field is read along if all are read
    intro hnil
    rw [hnil, hhides hnil] at hread
    exact hread rfl

/-- A page of whole records: those of stored items that a query looks for. -/
def ShowsStored (c : Collection) (t : Table) (q : PageQuery) (page : PageOfRecords) : Prop :=
  ∃ items : List Item, (∀ item ∈ items, item ∈ t.items ∧ q.wants c.entity item = true) ∧
    page.items = items.map Item.toRecord

/-- **A page of some fields** is the page of whole records with these fields alone. -/
theorem relates_page (hsuffix : ∀ ch ∈ suffix.toList, ch.isAlphanum = true)
    (hsuffix' : ∀ ch ∈ suffix'.toList, ch.isAlphanum = true) (hs : t.Sound) (hfits : c.entity.Fits t.shape)
    (hn : q.aliasCount c.entity < Numeral.natBound) :
    Relates (Twins c.entity.table t)
      (fun page page' => page = page'.only (q.fields c.entity) ∧ c.ShowsStored t q page')
      (c.page suffix q) (c.page suffix' (q.asking (some []))) := by
  have hrefused := c.select_agree suffix suffix' q (some []) q.paging
  rw [PageQuery.withPaging_asking] at hrefused
  rw [page_eq, page_eq, PageQuery.paging_asking]
  refine (relates_ofExcept hrefused.self).bind ?_
  rintro ⟨what, hidden⟩ ⟨whole, hidden'⟩ ⟨-, h, h'⟩
  obtain ⟨w, w', hr, hr', hnarrows, hkey⟩ := exists_narrows hsuffix hsuffix' hs hfits hn h h'
  rw [← hr'.table]
  refine (Page.relates_read hnarrows hkey).bind fun page page' hpage => relates_pure ?_
  have hshown : ∀ item ∈ page'.items, visible hidden (w.output item) = item.toRecord.only (q.fields c.entity) := by
    intro item hi
    rw [hr.shows item (Table.mem_rows (hpage.items.stored item hi).1).1, PageQuery.shown, Item.toRecord_only]
  have hwhole : ∀ item ∈ page'.items, visible hidden' item = item.toRecord := by
    intro item hi
    have hshows := hr'.shows item (Table.mem_rows (hpage.items.stored item hi).1).1
    rw [hnarrows.reads.output, PageQuery.shown, PageQuery.fields_asking] at hshows
    exact hshows
  refine ⟨?_, page'.items, ?_, List.map_congr_left hwhole⟩
  · rw [PageOfRecords.only, hpage.nextCursor, hpage.items.items, List.map_map, List.map_map]
    congr 1
    refine List.map_congr_left fun item hi => ?_
    rw [Function.comp, Function.comp, hshown item hi, hwhole item hi]
  · intro item hi
    obtain ⟨hrow, hselects⟩ := hpage.items.stored item hi
    obtain ⟨hitem, position, hplace⟩ := Table.mem_rows hrow
    have hwants := hr'.selects item hitem
    rw [← hr'.order, hplace, hselects, PageQuery.wants_asking] at hwants
    exact ⟨hitem, hwants.symm⟩

/-! ## Records by their ids -/

open MemoryStore (Batches Under)

variable {fields : List String}

/-- What a projection on some fields is, and what it is without. -/
theorem relates_projection (hsuffix : ∀ ch ∈ suffix.toList, ch.isAlphanum = true) {fields : Option (List String)}
    (hn : (fields.getD []).length < Numeral.natBound) (c : Collection) (suffix' : String) :
    Relates (Twins c.entity.table t) (fun p p' => Projects p.names p.projection (fields.getD []) ∧ p' = {})
      (Call.ofExcept (c.projection suffix fields)) (Call.ofExcept (c.projection suffix' none)) := by
  obtain ⟨p, hp, hprojects⟩ := c.projection_projects hsuffix hn
  have hfields : c.projection suffix fields = .ok p := hp
  rw [hfields, projection_none]
  exact relates_ofExcept (.ok ⟨hprojects, rfl⟩)

/-- **A record of some fields** is the whole record with these fields alone. -/
theorem relates_get (hsuffix : ∀ ch ∈ suffix.toList, ch.isAlphanum = true) (hs : t.Sound)
    {fields : Option (List String)} (hn : (fields.getD []).length < Numeral.natBound) (id : String) :
    Relates (Twins c.entity.table t) (fun found found' => found = found'.map (Record.only (fields.getD [])) ∧
        ∀ record ∈ found', ∃ item, t.get (c.entity.key id) = .ok (some item) ∧ record = item.toRecord)
      (c.get suffix id fields) (c.get suffix' id none) := by
  refine relates_bind_same fun _ _ => ?_
  refine (relates_projection hsuffix hn c suffix').bind ?_
  rintro p _ ⟨hprojects, rfl⟩
  refine ((MemoryStore.relates_get hs hprojects).mapError _).bind fun r r' hr => relates_pure ⟨?_, ?_⟩
  · rw [hr.1, Option.map_map, Option.map_map]
    congr 1
    exact funext fun item => item.toRecord_only _
  · intro record hrecord
    obtain ⟨item, hitem, rfl⟩ := Option.map_eq_some_iff.1 hrecord
    exact ⟨item, hr.2 item hitem, rfl⟩

/-- Records of some fields, and the whole ones of stored items that they are. -/
structure Only (c : Collection) (t : Table) (fields : List String) (records whole : List Record) : Prop where
  records : records = whole.map (Record.only fields)
  stored : ∀ record ∈ whole, ∃ item, Under c.entity t item ∧ record = item.toRecord

theorem Only.nil : c.Only t fields [] [] := ⟨rfl, nofun⟩

theorem Only.append {records whole : List Record} {items items' : List Item} (h : c.Only t fields records whole)
    (hitems : Narrowed (Item.only fields) (Under c.entity t) items items') :
    c.Only t fields (records ++ items.map Item.toRecord) (whole ++ items'.map Item.toRecord) := by
  refine ⟨?_, fun record hrecord => ?_⟩
  · rw [h.records, hitems.items, List.map_append, List.map_map, List.map_map]
    congr 2
    exact funext fun item => item.toRecord_only _
  · rcases List.mem_append.1 hrecord with hrecord | hrecord
    · exact h.stored record hrecord
    · obtain ⟨item, hitem, rfl⟩ := List.mem_map.1 hrecord
      exact ⟨item, hitems.stored item hitem, rfl⟩

theorem relates_getRounds (hs : t.Sound) : ∀ (n : Nat) {b b' : KeyBatch} {found found' : List Record},
    Batches c.entity fields b b' → c.Only t fields found found' →
    Relates (Twins c.entity.table t) (fun o o' => c.Only t fields o.1 o'.1 ∧ o.2 = o'.2) (c.getRounds n b found)
      (c.getRounds n b' found')
  | 0, _, _, _, _, _, hfound => relates_pure ⟨hfound, rfl⟩
  | n + 1, b, b', found, found', hb, hfound => by
    refine ((MemoryStore.relates_batchGet hs hb).mapError _).attempt.bind fun r r' hr => ?_
    cases hr with
    | error e =>
      have hempty : found.isEmpty = found'.isEmpty := by rw [hfound.records, List.isEmpty_map]
      dsimp only
      rw [hempty]
      split
      · exact relates_throw e
      · exact relates_pure ⟨hfound, rfl⟩
    | @ok response response' hresponse =>
      have hmore := hfound.append hresponse.items
      have hleft := hresponse.left
      dsimp only
      generalize response.unprocessed.find c.entity.table = left at hleft
      generalize response'.unprocessed.find c.entity.table = left' at hleft
      cases hleft with
      | none => exact relates_pure ⟨hmore, rfl⟩
      | @some left left' hleft =>
        rw [Option.filter_some, Option.filter_some, hleft.keys]
        cases left'.keys.isEmpty with
        | true => exact relates_pure ⟨hmore, rfl⟩
        | false => exact relates_getRounds hs n hleft hmore

theorem relates_getChunks (hs : t.Sound) {p : Compiled} (hp : Projects p.names p.projection fields) :
    ∀ (chunks : List (List String)) {found found' : List Record}, c.Only t fields found found' →
      Relates (Twins c.entity.table t) (c.Only t fields) (c.getChunks p chunks found) (c.getChunks {} chunks found')
  | [], _, _, hfound => relates_pure hfound
  | ids :: rest, found, found', hfound => by
    refine Relates.bind (relates_getRounds hs _ ⟨rfl, fun key hkey => ?_, hp, rfl⟩ hfound) ?_
    · obtain ⟨id, -, rfl⟩ := List.mem_map.1 hkey
      exact ⟨id, rfl⟩
    · rintro ⟨more, failed⟩ ⟨more', failed'⟩ ⟨hmore, hfailed⟩
      obtain rfl : failed = failed' := hfailed
      cases failed with
      | true => exact relates_pure hmore
      | false => exact relates_getChunks hs hp rest hmore

/-- **Records of some fields** are the whole records with these fields alone. -/
theorem relates_batchGet (hsuffix : ∀ ch ∈ suffix.toList, ch.isAlphanum = true) (hs : t.Sound)
    {fields : Option (List String)} (hn : (fields.getD []).length < Numeral.natBound) (ids : List String) :
    Relates (Twins c.entity.table t) (c.Only t (fields.getD [])) (c.batchGet suffix ids fields)
      (c.batchGet suffix' ids none) := by
  refine relates_bind_same fun _ _ => ?_
  refine (relates_projection hsuffix hn c suffix').bind ?_
  rintro p _ ⟨hprojects, rfl⟩
  exact relates_getChunks hs hprojects _ .nil

/-! ## What is shown -/

theorem eq_of_twins {name : String} (s s' : MemoryStore) (h : Twins name t s s') : s = s' := h.1

/--
**To ask for fields changes only what is shown.** A record that is read by its id, records that are read by their ids
and a page of a query, also one by an index or by a filter alone, are the whole ones with the fields that are asked for
alone: the same stored items in the same order, the same cursor, the same error if there is one, and the same store
after it. Whole records are those of stored items. A query that does not say which fields asks for all, or for those
that its index carries. It does not matter what the faults, the limits and the aliases are.
-/
theorem asking_shows_only {shape : TableShape} {s : MemoryStore} (hsuffix : ∀ ch ∈ suffix.toList, ch.isAlphanum = true)
    (hsuffix' : ∀ ch ∈ suffix'.toList, ch.isAlphanum = true) (ht : s.tables.find c.entity.table = some t)
    (hreached : t.Reached shape) (hfits : c.entity.Fits shape) :
    (∀ (id : String) (fields : Option (List String)), (fields.getD []).length < Numeral.natBound →
      c.get suffix id fields s = (Option.map (Record.only (fields.getD [])) <$> c.get suffix' id none) s ∧
      ∀ found, (c.get suffix' id none s).1 = .ok found → ∀ record ∈ found,
        ∃ item ∈ t.items, t.get (c.entity.key id) = .ok (some item) ∧ record = item.toRecord) ∧
    (∀ (ids : List String) (fields : Option (List String)), (fields.getD []).length < Numeral.natBound →
      c.batchGet suffix ids fields s = (List.map (Record.only (fields.getD [])) <$> c.batchGet suffix' ids none) s ∧
      ∀ records, (c.batchGet suffix' ids none s).1 = .ok records → ∀ record ∈ records,
        ∃ item ∈ t.items, record = item.toRecord) ∧
    ∀ q : PageQuery, q.aliasCount c.entity < Numeral.natBound →
      c.page suffix q s = (PageOfRecords.only (q.fields c.entity) <$> c.page suffix' (q.asking (some []))) s ∧
      ∀ page, (c.page suffix' (q.asking (some [])) s).1 = .ok page →
        ∃ items : List Item, (∀ item ∈ items, item ∈ t.items ∧ q.wants c.entity item = true) ∧
          page.items = items.map Item.toRecord := by
  obtain rfl := hreached.shape_eq
  have hs := hreached.sound
  have htwins : Twins c.entity.table t s s := ⟨rfl, ht⟩
  refine ⟨fun id fields hn => ?_, fun ids fields hn => ?_, fun q hn => ?_⟩
  · have hrelates : Relates (Twins c.entity.table t) _ (c.get suffix id fields) (c.get suffix' id none) :=
      relates_get hsuffix hs hn id
    obtain ⟨heq, hfound⟩ := hrelates.eq_map eq_of_twins htwins
    refine ⟨heq, fun found hok record hrecord => ?_⟩
    obtain ⟨item, hget, hitem⟩ := hfound found hok record hrecord
    exact ⟨item, Table.mem_of_get hget, hget, hitem⟩
  · have hrelates : Relates (Twins c.entity.table t)
        (fun records whole => records = whole.map (Record.only (fields.getD [])) ∧
          ∀ record ∈ whole, ∃ item ∈ t.items, record = item.toRecord)
        (c.batchGet suffix ids fields) (c.batchGet suffix' ids none) := by
      refine (relates_batchGet hsuffix hs hn ids).imp fun records whole h => ⟨h.records, fun record hrecord => ?_⟩
      obtain ⟨item, ⟨id, hget⟩, hitem⟩ := h.stored record hrecord
      exact ⟨item, Table.mem_of_get hget, hitem⟩
    exact hrelates.eq_map eq_of_twins htwins
  · exact (relates_page hsuffix hsuffix' hs hfits hn).eq_map eq_of_twins htwins

/-- A page by an index of fields that are asked for more than once, of which one is a key field, and a record of which a
field is asked for that it does not have. -/
theorem asking_shows_only_some :
    let shape : TableShape :=
      ⟨"t", ⟨⟨"pk", .text⟩, some ⟨"id", .text⟩⟩, [⟨"by", ⟨⟨"g", .text⟩, some ⟨"n", .text⟩⟩⟩]⟩
    let item (id n x : String) : Item :=
      [("g", .text "1"), ("id", .text id), ("n", .text n), ("pk", .text "p"), ("x", .text x)]
    let c : Collection :=
      { entity := { table := "t", partitionValue := "p", partitionField := "pk"
                    indexes := [{ name := "by", partitionField := "g", sortField := "n" }] } }
    let q : PageQuery := .byIndex
      { index := "by", partitionField := "g", partition := .string "1", fields := some ["x", "n", "x"]
        paging := { pageSize := some 2 } }
    let token := "eyJnIjp7IlMiOiIxIn0sImlkIjp7IlMiOiJjIn0sIm4iOnsiUyI6Ijg1In0sInBrIjp7IlMiOiJwIn19"
    ∃ t : Table, t.Reached shape ∧ c.entity.Fits shape ∧
      let s : MemoryStore := ⟨[("t", t)], {}⟩
      (c.page "6a" (q.asking (some [])) s).1 =
        .ok ⟨[(item "a" "8" "A").toRecord, (item "c" "85" "C").toRecord], some token⟩ ∧
      (c.page "5f" q s).1 = .ok ⟨[[("n", .string "8"), ("x", .string "A")], [("n", .string "85"), ("x", .string "C")]],
        some token⟩ ∧
      (c.get "5f" "b" (some ["x", "y"]) s).1 = .ok (some [("x", .string "B")]) := by
  intro shape item c q token
  have hordered : ∀ id n x, Fields.Ordered (item id n x) := fun _ _ _ =>
    List.pairwise_map.1 (show ["g", "id", "n", "pk", "x"].Pairwise (· < ·) by decide)
  obtain ⟨t, ht⟩ : ∃ t : Table, ⟨shape, [(.text "p", [(some (.text "a"), item "a" "8" "A"),
      (some (.text "b"), item "b" "9" "B"), (some (.text "c"), item "c" "85" "C")])]⟩ = t := ⟨_, rfl⟩
  have hreached : t.Reached shape := by
    subst ht
    exact .put (.put (.put .empty (hordered "a" "8" "A") (by rfl)) (hordered "b" "9" "B") (by rfl))
      (hordered "c" "85" "C") (by rfl)
  have hfits : c.entity.Fits shape := .of_index rfl rfl rfl rfl
  refine ⟨t, hreached, hfits, ?_⟩
  intro s
  have hwhole : (c.page "6a" (q.asking (some [])) s).1 =
      .ok ⟨[(item "a" "8" "A").toRecord, (item "c" "85" "C").toRecord], some token⟩ := by
    subst ht
    unfold s c q token item shape
    cbv
  have hfound : (c.get "6a" "b" none s).1 = .ok (some (item "b" "9" "B").toRecord) := by
    subst ht
    unfold s c item shape
    cbv
  obtain ⟨hget, -, hpage⟩ := @asking_shows_only c t "5f" "6a" shape s (List.all_eq_true.1 rfl) (List.all_eq_true.1 rfl)
    rfl hreached hfits
  refine ⟨hwhole, ?_, ?_⟩
  · rw [(hpage q (by decide)).1, Call.map_eq, hwhole]
    rfl
  · rw [(hget "b" (some ["x", "y"]) (by decide)).1, Call.map_eq, hfound]
    rfl

end Collection

end RecordStore
