import RecordStore.Proofs.Collection.Collecting
import RecordStore.Proofs.Collection.Sparing

/-!
# Collections that share a table

Two collections of one table, each with a partition of its own, do not notice each other. What the tasks of the one
leave alone is the subject of the module on what a collection spares; here the other reads. `MemoryStore.Shows` says
that the partition of an entity is there and that nothing is planned to fail. Two such stores answer each read of a
record by its id alike, which is what the lemmas `settles_…` say call by call. A query looks through the whole table or
through the whole partition, but wants items of the partition alone (`PageQuery.OfOwn.find`), so that its answer is the
same for both.

**`Collection.neighbours_unseen`**: after any tasks of the one, with any faults, `Collection.ReadsSame` holds for the
other.
-/

namespace RecordStore

open Call (Settles)

/-! ## Items of a partition -/

/-- The items with a partition value are those in its partition. -/
theorem Table.Sound.mem_items_iff_partition {t : Table} {e : Entity} {item : Item} (hs : t.Sound)
    (hkey : t.shape.key = e.keyShape) (hvalue : item.find e.partitionField = some (.text e.partitionValue)) :
    item ∈ t.items ↔ ∃ sort, (sort, item) ∈ t.partition (.text e.partitionValue) := by
  rw [Table.mem_items]
  constructor
  · rintro ⟨entry, hentry, sort, hslot⟩
    obtain ⟨_, haddress, -⟩ := hs.address entry hentry _ hslot
    obtain ⟨hfound, -⟩ := KeyField.value_ok.1 (Table.address_parts haddress).1
    rw [hkey] at hfound
    obtain ⟨value, slots⟩ := entry
    obtain rfl : .text e.partitionValue = value := Option.some.inj (hvalue.symm.trans hfound)
    exact ⟨sort, by rw [Table.partition_eq_of_mem hs.distinct hentry]; exact hslot⟩
  · rintro ⟨sort, hslot⟩
    exact ⟨_, Table.mem_partitions_of_mem hslot, sort, hslot⟩

/-! ## Stores without faults -/

namespace Faults

/-- No failure is planned, and no entry of a batch is to be left undone. -/
structure Quiet (faults : Faults) : Prop where
  failures : faults.failures = []
  undone : faults.undone = []

variable {faults : Faults} (operation : Operation)

/-- Without faults, a call is only counted. -/
theorem Quiet.note (h : faults.Quiet) :
    faults.note operation = (.ok (), { faults with calls := operation :: faults.calls, failures := [] }) := by
  simp only [Faults.note, h.failures, List.map_nil, List.find?_nil]

theorem Quiet.takeUndone (h : faults.Quiet) : faults.takeUndone operation = (0, { faults with undone := [] }) := by
  simp only [Faults.takeUndone, h.undone, List.lookup_nil, Option.getD_none, List.filter_nil]

end Faults

namespace MemoryStore

variable {e : Entity} {shape : TableShape} {p : Partition} {α : Type}

/-- In the partition of an entity are some items, and no fault is planned. -/
structure Shows (e : Entity) (shape : TableShape) (p : Partition) (s : MemoryStore) : Prop where
  holds : s.Holds e shape p
  quiet : s.faults.Quiet

theorem settles_record (operation : Operation) : Settles (Shows e shape p) (record operation) fun _ => True := by
  constructor
  · intro s hs
    rw [record_eq, hs.quiet.note]
    exact ⟨⟨hs.holds.of_tables rfl, rfl, hs.quiet.undone⟩, fun _ _ => trivial⟩
  · intro s s' hs hs'
    rw [record_eq, record_eq, hs.quiet.note, hs'.quiet.note]

/-- What is left undone is nothing. -/
theorem settles_takeUndone (operation : Operation) :
    Settles (Shows e shape p) (takeUndone operation) (· = 0) := by
  constructor
  · intro s hs
    unfold takeUndone
    rw [hs.quiet.takeUndone]
    exact ⟨⟨hs.holds.of_tables rfl, hs.quiet.failures, rfl⟩, fun _ ha => (Except.ok.inj ha).symm⟩
  · intro s s' hs hs'
    unfold takeUndone
    rw [hs.quiet.takeUndone, hs'.quiet.takeUndone]

theorem settles_ask {answer : MemoryStore → Except StoreError α} {r : Except StoreError α} {Q : α → Prop}
    (h : ∀ s, Shows e shape p s → answer s = r) (hq : ∀ a, r = .ok a → Q a) :
    Settles (Shows e shape p) (ask answer) Q :=
  ⟨fun s hs => ⟨hs, fun a ha => hq a ((h s hs).symm.trans ha)⟩, fun s s' hs hs' => (h s hs).trans (h s' hs').symm⟩

section

variable (hkey : shape.key = e.keyShape) (hne : e.partitionField ≠ e.sortField)

include hkey hne

/-- An item is found by its key in the partition. -/
theorem Holds.get {s : MemoryStore} (h : s.Holds e shape p) : ∃ t, s.table? e.table = .ok t ∧
    ∀ id, t.get (e.key id) = .ok (p.find (some (.text id))) := by
  obtain ⟨t, ht, hreached, hpartition⟩ := h
  refine ⟨t, by rw [table?, ht], fun id => ?_⟩
  rw [← hreached.shape_eq] at hkey
  rw [Table.get_eq (Entity.address_key hne hkey id), Table.at?, hpartition]

theorem settles_get (id : String) (consistent : Option Bool) (projection : Option String) (names : NameAliases) :
    Settles (Shows e shape p) (get ⟨e.table, e.key id, consistent, projection, names⟩) fun _ => True := by
  refine (settles_record _).bind fun _ _ => settles_ask (r := do
    let paths ← parseOptional Path.parseList projection
    .ok ⟨(p.find (some (.text id))).map (projected names paths)⟩) (fun s hs => ?_) fun _ _ => trivial
  obtain ⟨t, ht, hget⟩ := hs.holds.get hkey hne
  refine bind_congr fun paths => ?_
  rw [ht]
  show (ofTable (t.get (e.key id)) >>= fun item => .ok _) = _
  rw [hget]
  rfl

omit hkey hne in
/-- The items with some keys of an entity. -/
theorem getAll_eq {t : Table} (hget : ∀ id, t.get (e.key id) = .ok (p.find (some (.text id)))) (b : KeyBatch)
    (paths : Option (List Path)) (ids : List String) : getAll t b paths (ids.map e.key) =
      .ok ((ids.map fun id => p.find (some (.text id))).filterMap fun item => item.map (projected b.names paths)) := by
  have hfound : (ids.map e.key).mapM (fun key => ofTable (t.get key)) =
      .ok (ids.map fun id => p.find (some (.text id))) := by
    rw [mapM_eq_ok, List.forall₂_map_left_iff, List.forall₂_map_right_iff, List.forall₂_same]
    exact fun id _ => mapError_eq_ok.2 (hget id)
  rw [getAll, hfound]
  rfl

/-- A batch is done at once. -/
theorem settles_batchGet {b : KeyBatch} {ids : List String} (hb : b.keys = ids.map e.key) :
    Settles (Shows e shape p) (batchGet ⟨[(e.table, b)]⟩) fun response => response.unprocessed = [] := by
  refine (settles_record _).bind fun _ _ => Settles.bind (Q := fun _ => True)
    (settles_ask (fun _ _ => rfl) fun _ _ => trivial) fun _ _ => (settles_takeUndone _).bind fun undone hundone => ?_
  subst hundone
  refine settles_ask (r := do
    let paths ← parseOptional Path.parseList b.projection
    .ok ⟨[(e.table, (ids.map fun id => p.find (some (.text id))).filterMap fun item =>
      item.map (projected b.names paths))], []⟩) (fun s hs => ?_) fun response hresponse => ?_
  · obtain ⟨t, ht, hget⟩ := hs.holds.get hkey hne
    simp only [getTables, hb, Nat.zero_min, Nat.sub_zero, List.take_length, List.drop_length]
    rw [ht]
    show (parseOptional Path.parseList b.projection >>= fun _ => _) = _
    refine bind_congr fun paths => ?_
    rw [getAll_eq hget]
    rfl
  · obtain ⟨paths, -, hresponse⟩ := bind_eq_ok.1 hresponse
    cases hresponse
    rfl

end

end MemoryStore

namespace Collection

open MemoryStore (Shows)

variable {c : Collection} {shape : TableShape} {p : Partition}

section

variable (hkey : shape.key = c.entity.keyShape) (hne : c.entity.partitionField ≠ c.entity.sortField)

include hkey hne

theorem settles_get (suffix id : String) (fields : Option (List String)) :
    Settles (Shows c.entity shape p) (c.get suffix id fields) fun _ => True :=
  (Call.settles_ofExcept fun _ _ => trivial).bind fun _ _ => (Call.settles_ofExcept fun _ _ => trivial).bind fun _ _ =>
    ((MemoryStore.settles_get hkey hne id _ _ _).mapError _).bind fun _ _ => Call.settles_pure trivial

theorem settles_getRounds (n : Nat) {batch : KeyBatch} {ids : List String} (hb : batch.keys = ids.map c.entity.key)
    (found : List Record) : Settles (Shows c.entity shape p) (c.getRounds n batch found) fun _ => True := by
  cases n with
  | zero => exact Call.settles_pure trivial
  | succ n =>
    refine ((MemoryStore.settles_batchGet hkey hne hb).mapError _).attempt.bind fun r hr => ?_
    cases r with
    | error cause =>
      dsimp only
      split
      · exact Call.settles_throw _
      · exact Call.settles_pure trivial
    | ok response =>
      dsimp only
      rw [hr response rfl]
      exact Call.settles_pure trivial

theorem settles_getChunks (projection : Compiled) (chunks : List (List String)) (found : List Record) :
    Settles (Shows c.entity shape p) (c.getChunks projection chunks found) fun _ => True := by
  induction chunks generalizing found with
  | nil => exact Call.settles_pure trivial
  | cons ids rest ih =>
    refine (settles_getRounds hkey hne _ rfl _).bind fun ⟨found, failed⟩ _ => ?_
    cases failed with
    | true => exact Call.settles_pure trivial
    | false => exact ih found

theorem settles_batchGet (suffix : String) (ids : List String) (fields : Option (List String)) :
    Settles (Shows c.entity shape p) (c.batchGet suffix ids fields) fun _ => True :=
  (Call.settles_ofExcept fun _ _ => trivial).bind fun _ _ => (Call.settles_ofExcept fun _ _ => trivial).bind fun _ _ =>
    settles_getChunks hkey hne _ _ _

end

end Collection

/-! ## Queries of the own partition -/

/-- A query that looks for records of the entity alone: by a filter alone, or by keys in its partition. -/
def PageQuery.OfOwn (e : Entity) : PageQuery → Prop
  | .byKey q => q.partition = e.partitionValue
  | .byIndex _ => False
  | .byFilter _ => True

namespace PageQuery

variable {e : Entity} {q : PageQuery}

theorem OfOwn.direct (h : q.OfOwn e) : ∀ i, q ≠ .byIndex i := by
  rintro i rfl
  exact h

/-- Whatever else is asked, an item is looked for in the partition of the entity only. -/
theorem OfOwn.find (h : q.OfOwn e) {item : Item} (hwants : q.wants e item = true) :
    item.find e.partitionField = some (.text e.partitionValue) := by
  cases q with
  | byKey q =>
    have hpartition : q.partition = e.partitionValue := h
    simp only [wants, KeyQuery.wants, Bool.and_eq_true, decide_eq_true_eq, hpartition] at hwants
    exact hwants.1.1
  | byIndex q => exact h.elim
  | byFilter q =>
    simp only [wants, FilterQuery.wants, Bool.and_eq_true, decide_eq_true_eq] at hwants
    exact hwants.1

end PageQuery

namespace Collection

open MemoryStore (Holds)

/--
What a collection reads of two stores is the same: a record by its id, records by their ids, a page of no given size of
its own partition, all records of a query there, and what a client collects that follows the cursors of pages with
more suffixes than some number. Such a client never gives up.
-/
structure ReadsSame (c : Collection) (most : Nat) (s s' : MemoryStore) : Prop where
  get : ∀ suffix id fields, (c.get suffix id fields s').1 = (c.get suffix id fields s).1
  batchGet : ∀ suffix ids fields, (c.batchGet suffix ids fields s').1 = (c.batchGet suffix ids fields s).1
  page : ∀ suffix (q : PageQuery), q.OfOwn c.entity → q.aliasCount c.entity < Numeral.natBound →
    (∀ ch ∈ suffix.toList, ch.isAlphanum = true) → CapBounds.positive? q.paging.pageSize = none →
    q.paging.cursor = none → (c.page suffix q s').1 = (c.page suffix q s).1
  queryAll : ∀ suffix (q : KeyQuery), q.partition = c.entity.partitionValue →
    (PageQuery.byKey q).aliasCount c.entity < Numeral.natBound → (∀ ch ∈ suffix.toList, ch.isAlphanum = true) →
    (c.queryAll suffix q s').1 = (c.queryAll suffix q s).1
  collect : ∀ (suffixes : List String) (q : PageQuery), q.OfOwn c.entity →
    q.aliasCount c.entity < Numeral.natBound →
    (∀ suffix ∈ suffixes, ∀ ch ∈ suffix.toList, ch.isAlphanum = true) → most < suffixes.length →
    (c.collect q suffixes none s').1 = (c.collect q suffixes none s).1 ∧ (c.collect q suffixes none s).1 ≠ .ok none

variable {c d : Collection} {shape : TableShape} {s s₀ s₁ : MemoryStore} {t t' : Table} {turns : List Turn}

/-- Stores whose tables have the same items in the partition of a collection read the same for it. -/
theorem readsSame_of_holds (hkey : shape.key = c.entity.keyShape)
    (hne : c.entity.partitionField ≠ c.entity.sortField) (ht : s₀.tables.find c.entity.table = some t)
    (hreached : t.Reached shape) (ht' : s₁.tables.find c.entity.table = some t') (hreached' : t'.Reached shape)
    (hpartition : t'.partition (.text c.entity.partitionValue) = t.partition (.text c.entity.partitionValue))
    (hitems : ∀ item, item.find c.entity.partitionField = some (.text c.entity.partitionValue) →
      (item ∈ t.items ↔ item ∈ t'.items)) (hquiet : s₀.faults.Quiet) (hquiet' : s₁.faults.Quiet) :
    c.ReadsSame t.count s₀ s₁ := by
  have hshows : s₀.Shows c.entity shape _ := ⟨⟨t, ht, hreached, rfl⟩, hquiet⟩
  have hshows' : s₁.Shows c.entity shape _ := ⟨⟨t', ht', hreached', hpartition⟩, hquiet'⟩
  have hkeyt : t.shape.key = c.entity.keyShape := by rw [hreached.shape_eq, hkey]
  have hshape : t'.shape = t.shape := by rw [hreached'.shape_eq, hreached.shape_eq]
  have hanswer := fun {suffix : String} {q : PageQuery} (hq : q.OfOwn c.entity) hn hsuffix =>
    @exists_answer c q t suffix hreached.sound hkeyt hq.direct hn hsuffix
  have hpage : ∀ suffix (q : PageQuery), q.OfOwn c.entity → q.aliasCount c.entity < Numeral.natBound →
      (∀ ch ∈ suffix.toList, ch.isAlphanum = true) → CapBounds.positive? q.paging.pageSize = none →
      q.paging.cursor = none → (c.page suffix q s₁).1 = (c.page suffix q s₀).1 := by
    intro suffix q hq hn hsuffix hsize hcursor
    obtain ⟨answer, h⟩ := hanswer hq hn hsuffix
    have hbefore := (h t s₀ hreached.sound rfl (fun _ _ => Iff.rfl) ht hquiet.failures).1 hsize
    have hafter := (h t' s₁ hreached'.sound hshape (fun item hw => hitems item (hq.find hw)) ht'
      hquiet'.failures).1 hsize
    rw [PageQuery.withPaging_first hcursor] at hbefore hafter
    rw [hbefore, hafter]
  refine ⟨?_, ?_, hpage, ?_, ?_⟩
  · intro suffix id fields
    exact (settles_get hkey hne suffix id fields).alike _ _ hshows' hshows
  · intro suffix ids fields
    exact (settles_batchGet hkey hne suffix ids fields).alike _ _ hshows' hshows
  · intro suffix q hq hn hsuffix
    have hsame := hpage suffix ((PageQuery.byKey q).withPaging (unpaged q.paging)) hq hn hsuffix rfl rfl
    rw [queryAll_eq, Call.map_eq, Call.map_eq, hsame]
  · intro suffixes q hq hn hsuffixes hlen
    cases suffixes with
    | nil => cases hlen
    | cons suffix suffixes =>
      obtain ⟨hsuffix, hsuffixes⟩ := List.forall_mem_cons.1 hsuffixes
      obtain ⟨answer, h⟩ := hanswer hq hn hsuffix
      have hbefore := (h t s₀ hreached.sound rfl (fun _ _ => Iff.rfl) ht hquiet.failures).2 suffixes hsuffixes
        (Nat.le_of_lt_succ hlen)
      have hafter := (h t' s₁ hreached'.sound hshape (fun item hw => hitems item (hq.find hw)) ht'
        hquiet'.failures).2 suffixes hsuffixes (Nat.le_of_lt_succ hlen)
      rw [hbefore, hafter]
      refine ⟨rfl, ?_⟩
      cases answer <;> exact nofun

/--
**Collections that share a table do not notice each other.** Two collections have a table and its key fields in common,
and each has a partition of its own. Tasks of the one are done, with any data, also such that sets the key fields, with
any ids, any check and any faults. Then the items in the partition of the other are those that were there before, and
whatever the other reads of its records without faults, one by one, many at once or page by page to the end, is what it
would read if these tasks had not been done.
-/
theorem neighbours_unseen (hn : c.entity.Neighbours d.entity) (hne : c.entity.partitionField ≠ c.entity.sortField)
    (hkey : shape.key = c.entity.keyShape) (hcheck : d.KeepsOrder) (hdata : ∀ turn ∈ turns, turn.task.Ordered)
    (ht : s.tables.find c.entity.table = some t) (hreached : t.Reached shape) :
    ∃ t', (d.after s turns).tables.find c.entity.table = some t' ∧
      (∀ item, item.find c.entity.partitionField = some (.text c.entity.partitionValue) →
        (item ∈ t.items ↔ item ∈ t'.items)) ∧
      ∀ s₀ s₁ : MemoryStore, s₀.tables = s.tables → s₀.faults.Quiet → s₁.tables = (d.after s turns).tables →
        s₁.faults.Quiet → c.ReadsSame t.count s₀ s₁ := by
  have hkeyd : shape.key = d.entity.keyShape := by
    rw [hkey, Entity.keyShape, Entity.keyShape, hn.partitionField, hn.sortField]
  have hned : d.entity.partitionField ≠ d.entity.sortField := by
    rw [hn.partitionField, hn.sortField]
    exact hne
  have hbefore : s.Holds c.entity shape _ := ⟨t, ht, hreached, rfl⟩
  obtain ⟨t', ht', hreached', hpartition⟩ := holds_after hn hkeyd hned hcheck hdata hbefore
  have hitems : ∀ item, item.find c.entity.partitionField = some (.text c.entity.partitionValue) →
      (item ∈ t.items ↔ item ∈ t'.items) := by
    intro item hvalue
    rw [hreached.sound.mem_items_iff_partition (by rw [hreached.shape_eq, hkey]) hvalue,
      hreached'.sound.mem_items_iff_partition (by rw [hreached'.shape_eq, hkey]) hvalue, hpartition]
  refine ⟨t', ht', hitems, ?_⟩
  intro s₀ s₁ hs₀ hquiet hs₁ hquiet'
  rw [← hs₀] at ht
  rw [← hs₁] at ht'
  exact readsSame_of_holds hkey hne ht hreached ht' hreached' hpartition hitems hquiet hquiet'

/-- Data and a check that claim the key of another's record, a put that fails, and a batch that is left undone in part:
in the end there is one record more, and the other collection still finds its own alone. -/
theorem neighbours_unseen_claims :
    let shape : TableShape := ⟨"t", ⟨⟨"pk", .text⟩, some ⟨"id", .text⟩⟩, []⟩
    let user : Item := [("id", .text "1"), ("pk", .text "user")]
    let c : Collection := { entity := { table := "t", partitionValue := "user", partitionField := "pk" } }
    let d : Collection :=
      { entity := { table := "t", partitionValue := "order", partitionField := "pk" }
        check := fun record => .ok (Fields.put "pk" (.string "user") record) }
    let s : MemoryStore := ⟨[("t", ⟨shape, [(.text "user", [(some (.text "1"), user)])]⟩)], {}⟩
    let data : Json := .object [("id", .string "1"), ("pk", .string "user")]
    let turns : List Turn :=
      [⟨{}, .create "f" "2" data⟩, ⟨{ failures := [⟨.putItem, 1, .throttled⟩] }, .update "1" data⟩,
       ⟨{ undone := [(.batchWriteItem, 1)] }, .deleteMany ["1", "2"]⟩, ⟨{}, .replace "3" data⟩]
    let q : PageQuery := .byFilter { paging := { pageSize := some 1 } }
    let s' : MemoryStore := { d.after s turns with faults := {} }
    s'.tableSize "t" = 2 ∧ (c.collect q ["5f", "6a"] none s).1 = .ok (some [Item.toRecord user]) ∧
      (c.collect q ["5f", "6a"] none s').1 = .ok (some [Item.toRecord user]) := by
  intro shape user c d s data turns q s'
  have huser : Fields.Ordered user := List.pairwise_map.1 (show ["id", "pk"].Pairwise (· < ·) by decide)
  have hreached : Table.Reached shape ⟨shape, [(.text "user", [(some (.text "1"), user)])]⟩ :=
    .put .empty huser (by rfl)
  have hcheck : d.KeepsOrder := by
    intro record checked ho h
    cases h
    exact ho.put
  have hordered : ∀ record, Record.ofJson data = .ok record → Fields.Ordered record := by
    rintro _ ⟨⟩
    exact List.pairwise_map.1 (show ["id", "pk"].Pairwise (· < ·) by decide)
  have hdata : ∀ turn ∈ turns, turn.task.Ordered := by
    intro turn hmem
    simp only [turns, List.mem_cons, List.not_mem_nil, or_false] at hmem
    rcases hmem with rfl | rfl | rfl | rfl
    · exact hordered
    · trivial
    · trivial
    · exact hordered
  obtain ⟨t', -, -, hsame⟩ := neighbours_unseen (s := s) (c := c) (d := d) ⟨rfl, rfl, rfl, by decide⟩ (by decide) rfl
    hcheck hdata rfl hreached
  have hcollected : (c.collect q ["5f", "6a"] none s).1 = .ok (some [Item.toRecord user]) := by
    unfold c q s user shape
    cbv
  have hquiet : Faults.Quiet {} := ⟨rfl, rfl⟩
  have htables : s'.tables = (d.after s turns).tables := by simp only [s']
  have hread := (hsame s s' rfl hquiet htables hquiet).collect ["5f", "6a"] q trivial (by decide) (by simp) (by decide)
  refine ⟨?_, hcollected, hread.1.trans hcollected⟩
  unfold s' d turns data s user shape
  cbv

end Collection

end RecordStore
