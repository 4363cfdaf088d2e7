import RecordStore.Proofs.Collection.Asking
import RecordStore.Proofs.Collection.Deleting
import RecordStore.Proofs.Memory.Batches

/-!
# Gathering records by their ids

Ids go out in batches, what the store leaves undone of a batch is asked for again, and a failure ends it all.
`Collection.shown` are the records that are there of some ids, in the order of the ids, and `Answering` is a store that
keeps its answers to batch gets, so that one can say what had been collected when it failed. Every call of the store is
answered for some beginning of the ids that are still asked for (`Gathered.batchGet`), hence so are the rounds of a
batch and the batches one after the other.

**`Collection.batchGet_gathers`**: what is read at once is what is read one by one, or the beginning of it that had been
collected before a failure, which is an error if nothing had.
-/

namespace RecordStore

open Call (Relates relates_bind_same relates_pure relates_throw)

/-! ## Keeping the answers -/

/-- A store and the answers that it has given to batch gets. -/
structure Answering (σ : Type) where
  store : σ
  answers : List BatchGetResponse := []

namespace Answering

variable {σ α : Type}

/-- Passes a call on to the store and keeps of its answer what is to be kept. -/
def pass (kept : α → List BatchGetResponse) (call : Call σ StoreError α) : Call (Answering σ) StoreError α := fun st =>
  match call st.store with
  | (.ok a, store) => (.ok a, ⟨store, st.answers ++ kept a⟩)
  | (.error e, store) => (.error e, ⟨store, st.answers⟩)

instance [Store σ] : Store (Answering σ) where
  query r := pass (fun _ => []) (Store.query r)
  scan r := pass (fun _ => []) (Store.scan r)
  put r := pass (fun _ => []) (Store.put r)
  get r := pass (fun _ => []) (Store.get r)
  delete r := pass (fun _ => []) (Store.delete r)
  batchGet r := pass (fun response => [response]) (Store.batchGet r)
  batchWrite r := pass (fun _ => []) (Store.batchWrite r)
  readBound st := Store.readBound st.store

/-- The same store, whether or not its answers are kept. -/
def Same (st : Answering σ) (s : σ) : Prop := st.store = s

theorem relates_pass (kept : α → List BatchGetResponse) (call : Call σ StoreError α) :
    Relates Same (· = ·) (pass kept call) call := by
  rintro st _ rfl
  rw [pass]
  rcases call st.store with ⟨e | a, s'⟩
  · exact ⟨rfl, .error e⟩
  · exact ⟨rfl, .ok rfl⟩

end Answering

/-- How many keys the next batch get is to leave undone. -/
def MemoryStore.pending (s : MemoryStore) : Nat :=
  (s.faults.takeUndone .batchGetItem).1

namespace Collection

open Answering (Same relates_pass)

variable {c : Collection} {suffix : String}

/-! ## What is there -/

/-- The records with some ids, those that are there, in the order of the ids; with fields, only those of them. -/
def shown (c : Collection) (t : Table) (fields : List String) (ids : List String) : List Record :=
  ids.filterMap fun id => (t.at? (c.entity.address id)).map fun item => item.toRecord.only fields

theorem shown_append (c : Collection) (t : Table) (fields ids more : List String) :
    c.shown t fields (ids ++ more) = c.shown t fields ids ++ c.shown t fields more :=
  List.filterMap_append

/-- The records of some answers. -/
def collected (c : Collection) (answers : List BatchGetResponse) : List Record :=
  answers.flatMap fun response => ((response.items.find c.entity.table).getD []).map Item.toRecord

/-- What a failure leaves of what was found: that, if it is anything. -/
def stopped (found : List Record) (e : StoreError) : Except AccessError (List Record) :=
  if found.isEmpty then .error (.store e) else .ok found

/-! ## Rounds and batches -/

section Steps

variable {σ : Type} [Store σ] {st st' : σ} {batch : KeyBatch} {n : Nat} {found : List Record}

theorem getRounds_of_error {e : StoreError}
    (h : Store.batchGet ⟨[(c.entity.table, batch)]⟩ st = (.error e, st')) :
    c.getRounds (n + 1) batch found st = ((·, true) <$> stopped found e, st') := by
  rw [getRounds, Call.bind_eq, Call.attempt_eq, ofStore, Call.mapError_eq, h]
  cases found <;> rfl

theorem getRounds_of_ok {response : BatchGetResponse}
    (h : Store.batchGet ⟨[(c.entity.table, batch)]⟩ st = (.ok response, st')) :
    c.getRounds (n + 1) batch found st =
      match (response.unprocessed.find c.entity.table).filter fun left => !left.keys.isEmpty with
      | some left =>
        c.getRounds n left (found ++ ((response.items.find c.entity.table).getD []).map Item.toRecord) st'
      | none => (.ok (found ++ ((response.items.find c.entity.table).getD []).map Item.toRecord, false), st') := by
  rw [getRounds, Call.bind_eq, Call.attempt_eq, ofStore, Call.mapError_eq, h]
  simp only [Except.mapError]
  cases (response.unprocessed.find c.entity.table).filter fun left => !left.keys.isEmpty <;> rfl

theorem relates_getRounds_answering (c : Collection) : ∀ (n : Nat) (batch : KeyBatch) (found : List Record),
    Relates Same (· = ·) (c.getRounds n batch found : Call (Answering σ) _ _) (c.getRounds n batch found)
  | 0, _, _ => relates_pure rfl
  | n + 1, batch, found => by
    refine ((relates_pass _ (Store.batchGet _)).mapError _).attempt.bind fun r r' hr => ?_
    cases hr with
    | error e =>
      dsimp only
      split
      · exact relates_throw e
      · exact relates_pure rfl
    | @ok response response' hresponse =>
      subst hresponse
      dsimp only
      split
      · exact relates_getRounds_answering c n _ _
      · exact relates_pure rfl

theorem relates_getChunks_answering (c : Collection) (projection : Compiled) :
    ∀ (chunks : List (List String)) (found : List Record),
      Relates Same (· = ·) (c.getChunks projection chunks found : Call (Answering σ) _ _)
        (c.getChunks projection chunks found)
  | [], _ => relates_pure rfl
  | ids :: rest, found => by
    refine (relates_getRounds_answering c _ _ found).bind ?_
    rintro ⟨found, failed⟩ _ rfl
    cases failed with
    | true => exact relates_pure rfl
    | false => exact relates_getChunks_answering c projection rest found

/-- Records are read the same, whether or not the answers are kept. -/
theorem relates_batchGet_answering (c : Collection) (suffix : String) (ids : List String)
    (fields : Option (List String)) :
    Relates Same (· = ·) (c.batchGet suffix ids fields : Call (Answering σ) _ _) (c.batchGet suffix ids fields) :=
  relates_bind_same fun _ _ => relates_bind_same fun projection _ => relates_getChunks_answering c projection _ _

end Steps

variable {t : Table} {fields : List String} {s s' : MemoryStore} {b : KeyBatch} {ids : List String}

section

variable (hs : t.Sound) (hkey : t.shape.key = c.entity.keyShape) (hne : c.entity.partitionField ≠ c.entity.sortField)

include hs hkey hne

theorem getAll_shown {paths : Option (List Path)} (hp : Projects b.names b.projection fields)
    (hpaths : MemoryStore.parseOptional Path.parseList b.projection = .ok paths) (ids : List String) :
    ∃ items, MemoryStore.getAll t b paths (ids.map c.entity.key) = .ok items ∧
      items.map Item.toRecord = c.shown t fields ids := by
  have hget (id : String) : t.get (c.entity.key id) = .ok (t.at? (c.entity.address id)) :=
    Table.get_eq (Entity.address_key hne hkey id)
  refine ⟨_, MemoryStore.getAll_eq (p := t.partition (.text c.entity.partitionValue)) hget b paths ids, ?_⟩
  rw [List.filterMap_map, List.map_filterMap, shown]
  refine List.filterMap_congr fun id _ => ?_
  show Option.map Item.toRecord (Option.map _ (t.at? (c.entity.address id))) = _
  cases hfound : t.at? (c.entity.address id) with
  | none => rfl
  | some item =>
    have hitem : item ∈ t.items := Table.mem_of_get ((hget id).trans (congrArg Except.ok hfound))
    rw [Option.map_some, Option.map_some, Option.map_some, MemoryStore.projected_only hs hp hpaths hitem,
      Item.toRecord_only]

/-- A batch get of records fails by plan, or it is answered for a beginning of the ids and hands back the rest. -/
theorem batchGet_cases (hp : Projects b.names b.projection fields) (hb : b.keys = ids.map c.entity.key)
    (hsome : ids ≠ []) (hfew : ids.length ≤ getChunk) (ht : s.tables.find c.entity.table = some t) :
    (∃ e, (MemoryStore.batchGet ⟨[(c.entity.table, b)]⟩ s).1 = .error e ∧ s.faults.Plans .batchGetItem e) ∨
    ∃ response now left, (MemoryStore.batchGet ⟨[(c.entity.table, b)]⟩ s).1 = .ok response ∧ ids = now ++ left ∧
      ((response.items.find c.entity.table).getD []).map Item.toRecord = c.shown t fields now ∧
      response.unprocessed.find c.entity.table =
        (if left.isEmpty then none else some { b with keys := left.map c.entity.key }) ∧
      (MemoryStore.batchGet ⟨[(c.entity.table, b)]⟩ s).2.pending = 0 ∧ (s.pending = 0 → left = []) := by
  obtain ⟨paths, hpaths⟩ := hp.parse
  have hcheck : MemoryStore.checkBatch .batchGetItem "keys" MemoryStore.maxBatchGet
      (MemoryStore.batchSize (·.keys.length) [(c.entity.table, b)]) = .ok () := by
    have hsize : b.keys.length = ids.length := by rw [hb, List.length_map]
    exact MemoryStore.checkBatch_single _ _ (hsize ▸ List.length_pos_of_ne_nil hsome) (hsize ▸ hfew)
  rw [MemoryStore.batchGet, MemoryStore.batch_eq, hcheck]
  cases hnote : (s.faults.note .batchGetItem).1 with
  | error e => exact .inl ⟨e, rfl, Faults.plans_of_note hnote⟩
  | ok _ =>
    obtain ⟨done, hdone⟩ : ∃ done, ids.length - min s.pending ids.length = done := ⟨_, rfl⟩
    obtain ⟨items, hitems, hshown⟩ := getAll_shown hs hkey hne hp hpaths (ids.take done)
    refine .inr ⟨⟨[(c.entity.table, items)], if (ids.drop done).isEmpty then [] else
      [(c.entity.table, { b with keys := (ids.drop done).map c.entity.key })]⟩, ids.take done, ids.drop done, ?_,
      (List.take_append_drop done ids).symm, ?_, ?_, ?_, fun hnone => ?_⟩
    · have htable (faults : Faults) : ({ s with faults } : MemoryStore).table? c.entity.table = .ok t := by
        rw [MemoryStore.table?, ht]
      rw [MemoryStore.pending] at hdone
      simp only [MemoryStore.ask, MemoryStore.getTables, htable, hpaths, hb, List.length_map, ← List.map_take,
        ← List.map_drop, hdone]
      show (MemoryStore.getAll t b paths _ >>= fun _ => _) = _
      rw [hitems]
      simp only [List.isEmpty_map]
      rfl
    · rw [Fields.find_cons, if_pos rfl]
      exact hshown
    · dsimp only
      split
      · rfl
      · rw [Fields.find_cons, if_pos rfl]
    · exact (Faults.takeUndone_takeUndone _ _ _).trans (if_pos rfl)
    · rw [hnone] at hdone
      rw [← hdone, Nat.zero_min, Nat.sub_zero, List.drop_length]

end

/-! ## Batches that are gathered -/

/-- A store that has read batches of records: its tables are as they were, and so much has been collected. -/
structure Gathered (c : Collection) (s : MemoryStore) (found : List Record) (st : Answering MemoryStore) : Prop where
  tables : st.store.tables = s.tables
  plans : ∀ e, st.store.faults.Plans .batchGetItem e → s.faults.Plans .batchGetItem e
  answers : c.collected st.answers = found

variable {found : List Record} {st : Answering MemoryStore}

theorem Gathered.start (c : Collection) (s : MemoryStore) : c.Gathered s [] ⟨s, []⟩ :=
  ⟨rfl, fun _ => id, rfl⟩

/-- A batch get changes no table, and the failures that are left were planned before it. -/
theorem batchGet_keeps (r : BatchGetRequest) (s : MemoryStore) : (MemoryStore.batchGet r s).2.tables = s.tables ∧
    ∀ e, (MemoryStore.batchGet r s).2.faults.Plans .batchGetItem e → s.faults.Plans .batchGetItem e := by
  rw [MemoryStore.batchGet, MemoryStore.batch_eq]
  split <;> exact ⟨rfl, fun _ => Faults.Plans.of_note⟩

section

variable (hs : t.Sound) (hkey : t.shape.key = c.entity.keyShape) (hne : c.entity.partitionField ≠ c.entity.sortField)
  (ht : s.tables.find c.entity.table = some t)

include hs hkey hne ht

/-- One batch is a planned failure, or it is answered for a beginning of the ids, which is then collected. -/
theorem Gathered.batchGet (h : c.Gathered s found st) (hp : Projects b.names b.projection fields)
    (hb : b.keys = ids.map c.entity.key) (hsome : ids ≠ []) (hfew : ids.length ≤ getChunk) :
    (∃ e st', Store.batchGet ⟨[(c.entity.table, b)]⟩ st = (.error e, st') ∧ s.faults.Plans .batchGetItem e ∧
      c.Gathered s found st') ∨
    ∃ response st' now left, Store.batchGet ⟨[(c.entity.table, b)]⟩ st = (.ok response, st') ∧ ids = now ++ left ∧
      ((response.items.find c.entity.table).getD []).map Item.toRecord = c.shown t fields now ∧
      response.unprocessed.find c.entity.table =
        (if left.isEmpty then none else some { b with keys := left.map c.entity.key }) ∧
      c.Gathered s (found ++ c.shown t fields now) st' ∧ st'.store.pending = 0 ∧
      (st.store.pending = 0 → left = []) := by
  rw [← h.tables] at ht
  obtain ⟨htables, hplans⟩ := batchGet_keeps ⟨[(c.entity.table, b)]⟩ st.store
  have hkeeps : Store.batchGet ⟨[(c.entity.table, b)]⟩ st =
    Answering.pass (fun response => [response]) (MemoryStore.batchGet ⟨[(c.entity.table, b)]⟩) st := rfl
  rw [hkeeps, Answering.pass]
  generalize hcall : MemoryStore.batchGet ⟨[(c.entity.table, b)]⟩ st.store = outcome at htables hplans
  obtain ⟨r, s'⟩ := outcome
  obtain ⟨e, he, hplanned⟩ | ⟨response, now, left, hok, hids, hitems, hleft, hpending, hnone⟩ :=
    batchGet_cases hs hkey hne hp hb hsome hfew ht
  · rw [hcall] at he
    obtain rfl : r = .error e := he
    exact .inl ⟨e, _, rfl, h.plans e hplanned, htables.trans h.tables, fun e he => h.plans e (hplans e he), h.answers⟩
  · rw [hcall] at hok hpending
    obtain rfl : r = .ok response := hok
    refine .inr ⟨response, _, now, left, rfl, hids, hitems, hleft,
      ⟨htables.trans h.tables, fun e he => h.plans e (hplans e he), ?_⟩, hpending, hnone⟩
    rw [collected, List.flatMap_append, List.flatMap_singleton, hitems]
    exact congrArg (· ++ _) h.answers

/--
The rounds of a batch collect all of it, or a failure stops them. What is left undone of the first round is not left
undone of the second.
-/
theorem Gathered.rounds : ∀ (n : Nat) {b : KeyBatch} {ids : List String} {found : List Record}
    {st : Answering MemoryStore}, c.Gathered s found st → Projects b.names b.projection fields →
    b.keys = ids.map c.entity.key → ids ≠ [] → ids.length ≤ getChunk → 0 < n → (st.store.pending = 0 ∨ 2 ≤ n) →
    (∃ st', c.getRounds n b found st = (.ok (found ++ c.shown t fields ids, false), st') ∧
      c.Gathered s (found ++ c.shown t fields ids) st') ∨
    ∃ now left e st', ids = now ++ left ∧ s.faults.Plans .batchGetItem e ∧
      c.getRounds n b found st = ((·, true) <$> stopped (found ++ c.shown t fields now) e, st') ∧
      c.Gathered s (found ++ c.shown t fields now) st'
  | n + 1, b, ids, found, st, h, hp, hb, hsome, hfew, _, hrounds => by
    obtain ⟨e, st', hcall, hplanned, h⟩ | ⟨response, st', now, left, hcall, hids, hitems, hleft, h, hpending, hnone⟩ :=
      h.batchGet hs hkey hne ht hp hb hsome hfew
    · refine .inr ⟨[], ids, e, st', rfl, hplanned, ?_, ?_⟩
      · rw [getRounds_of_error hcall, shown, List.filterMap_nil, List.append_nil]
      · rwa [shown, List.filterMap_nil, List.append_nil]
    · rw [getRounds_of_ok hcall, hitems, hleft]
      cases left with
      | nil =>
        rw [List.append_nil] at hids
        subst hids
        exact .inl ⟨st', rfl, h⟩
      | cons id rest =>
        -- keys are left, so some were to be left undone, and there is a round for them
        have hn : 0 < n := by
          rcases hrounds with hzero | htwo
          · cases hnone hzero
          · omega
        have hfew' : (id :: rest).length ≤ getChunk := by
          rw [hids, List.length_append] at hfew
          omega
        obtain ⟨st', hrest, h⟩ | ⟨more, left, e, st', hmore, hplanned, hrest, h⟩ :=
          h.rounds n (b := { b with keys := (id :: rest).map c.entity.key }) hp rfl (List.cons_ne_nil id rest) hfew' hn
            (.inl hpending)
        · rw [List.append_assoc, ← shown_append, ← hids] at hrest h
          exact .inl ⟨st', hrest, h⟩
        · rw [List.append_assoc, ← shown_append] at hrest h
          exact .inr ⟨now ++ more, left, e, st', by rw [hids, hmore, List.append_assoc], hplanned, hrest, h⟩

/-- **Batches one after the other** collect all of them, or a failure stops them. -/
theorem Gathered.chunks {projection : Compiled} (hrounds : 2 ≤ c.maxRounds)
    (hp : Projects projection.names projection.projection fields) : ∀ (chunks : List (List String))
    {found : List Record} {st : Answering MemoryStore}, (∀ chunk ∈ chunks, chunk ≠ [] ∧ chunk.length ≤ getChunk) →
    c.Gathered s found st →
    (∃ st', c.getChunks projection chunks found st = (.ok (found ++ c.shown t fields chunks.flatten), st') ∧
      c.Gathered s (found ++ c.shown t fields chunks.flatten) st') ∨
    ∃ now left e st', chunks.flatten = now ++ left ∧ s.faults.Plans .batchGetItem e ∧
      c.getChunks projection chunks found st = (stopped (found ++ c.shown t fields now) e, st') ∧
      c.Gathered s (found ++ c.shown t fields now) st'
  | [], found, st, _, h => by
    rw [List.flatten_nil, shown, List.filterMap_nil, List.append_nil]
    exact .inl ⟨st, rfl, h⟩
  | ids :: rest, found, st, hchunks, h => by
    obtain ⟨⟨hsome, hfew⟩, hchunks⟩ := List.forall_mem_cons.1 hchunks
    rw [getChunks]
    obtain ⟨st', hrun, h⟩ | ⟨now, left, e, st', hids, hplanned, hrun, h⟩ :=
      h.rounds hs hkey hne ht c.maxRounds
        (b := { keys := ids.map c.entity.key, projection := projection.projection, names := projection.names
                consistent := if c.settings.consistentBatches then some true else none })
        hp rfl hsome hfew (by omega) (.inr hrounds)
    · rw [Call.bind_of_eq hrun]
      obtain ⟨st', hrest, h⟩ | ⟨more, left, e, st', hmore, hplanned, hrest, h⟩ := h.chunks hrounds hp rest hchunks
      · rw [List.append_assoc, ← shown_append, ← List.flatten_cons] at hrest h
        exact .inl ⟨st', hrest, h⟩
      · rw [List.append_assoc, ← shown_append] at hrest h
        exact .inr ⟨ids ++ more, left, e, st', by rw [List.flatten_cons, hmore, List.append_assoc], hplanned, hrest, h⟩
    · have hall : (ids :: rest).flatten = now ++ (left ++ rest.flatten) := by
        rw [List.flatten_cons, hids, List.append_assoc]
      refine .inr ⟨now, left ++ rest.flatten, e, st', hall, hplanned, ?_, h⟩
      rw [Call.bind_eq, hrun]
      cases stopped (found ++ c.shown t fields now) e <;> rfl

end

/-! ## One by one -/

/-- Reads records one by one, each with aliases of its own, and leaves out those that are not there. -/
def getEach {σ : Type} [Store σ] (c : Collection) (fields : Option (List String)) (reads : List (String × String)) :
    Call σ AccessError (List Record) := do
  let found ← reads.mapM fun (suffix, id) => c.get suffix id fields
  return found.reduceOption

section

variable {fields : Option (List String)} (hs : t.Sound) (hkey : t.shape.key = c.entity.keyShape)
  (hne : c.entity.partitionField ≠ c.entity.sortField)
  (hvalue : Text.isBlankText c.entity.partitionValue = false) (hn : (fields.getD []).length < Numeral.natBound)

include hs hkey hne hvalue hn

/-- Without failures, a record is read as it is shown. -/
theorem get_shown (ht : s.tables.find c.entity.table = some t) (hf : s.faults.failures = []) {id : String}
    (hsuffix : ∀ ch ∈ suffix.toList, ch.isAlphanum = true) (hid : Text.isBlankText id = false) :
    ∃ s', c.get suffix id fields s =
      (.ok ((t.at? (c.entity.address id)).map fun item => item.toRecord.only (fields.getD [])), s') ∧
      s'.tables = s.tables ∧ s'.faults.failures = [] := by
  have hwhole : (c.get suffix id none s).1 = .ok ((t.at? (c.entity.address id)).map Item.toRecord) := by
    rw [get_found hne hvalue hid ht hkey, MemoryStore.note_of_no_failures hf]
    rfl
  have hrelates : Call.Relates (MemoryStore.Twins c.entity.table t) _ (c.get suffix id fields) (c.get suffix id none) :=
    relates_get hsuffix hs hn id
  obtain ⟨heq, -⟩ := hrelates.eq_map eq_of_twins ⟨rfl, ht⟩
  rw [heq, Call.map_eq, hwhole]
  refine ⟨_, ?_, reads_get c suffix id s, ?_⟩
  · cases t.at? (c.entity.address id) <;> rfl
  · rw [get_eq (requireTexts_key hvalue hid), MemoryStore.get, MemoryStore.record_ask]
    exact MemoryStore.failures_of_no_failures hf _

theorem mapM_get_shown : ∀ (reads : List (String × String)) {s : MemoryStore},
    (∀ read ∈ reads, (∀ ch ∈ read.1.toList, ch.isAlphanum = true) ∧ Text.isBlankText read.2 = false) →
    s.tables.find c.entity.table = some t → s.faults.failures = [] →
    ∃ s', (reads.mapM fun read => c.get read.1 read.2 fields : Call MemoryStore _ _) s =
      (.ok (reads.map fun read => (t.at? (c.entity.address read.2)).map fun item =>
        item.toRecord.only (fields.getD [])), s')
  | [], s, _, _, _ => ⟨s, rfl⟩
  | read :: reads, s, hreads, ht, hf => by
    obtain ⟨⟨hsuffix, hid⟩, hreads⟩ := List.forall_mem_cons.1 hreads
    obtain ⟨s₁, hfirst, htables, hf₁⟩ := get_shown hs hkey hne hvalue hn ht hf hsuffix hid
    obtain ⟨s₂, hrest⟩ := mapM_get_shown reads hreads (htables ▸ ht) hf₁
    refine ⟨s₂, ?_⟩
    rw [List.mapM_cons, Call.bind_of_eq hfirst, Call.bind_of_eq hrest]
    rfl

/-- Without failures, records are read one by one as they are shown. -/
theorem getEach_shown {reads : List (String × String)}
    (hreads : ∀ read ∈ reads, (∀ ch ∈ read.1.toList, ch.isAlphanum = true) ∧ Text.isBlankText read.2 = false)
    (ht : s.tables.find c.entity.table = some t) (hf : s.faults.failures = []) :
    (c.getEach fields reads s).1 = .ok (c.shown t (fields.getD []) (reads.map (·.2))) := by
  obtain ⟨s', hrun⟩ := mapM_get_shown hs hkey hne hvalue hn reads hreads ht hf
  rw [getEach, Call.bind_of_eq hrun, shown, List.filterMap_map]
  exact congrArg Except.ok List.filterMap_map

end

/-! ## All at once -/

theorem ne_nil_of_mem_cut {α : Type} {size : Nat} (hsize : 0 < size) : ∀ {n : Nat} {xs : List α},
    ∀ piece ∈ chunksOf.cut size n xs, piece ≠ []
  | 0, _, _, h => by cases h
  | _ + 1, [], _, h => by cases h
  | _ + 1, x :: xs, _, h => by
    rcases List.mem_cons.1 h with rfl | h
    · rw [Ne, List.take_eq_nil_iff]
      exact not_or.2 ⟨Nat.ne_of_gt hsize, List.cons_ne_nil x xs⟩
    · exact ne_nil_of_mem_cut hsize _ h

/--
**Records are gathered in the order of their ids.** Of some ids none of which is blank, with repeats and with ids that
are not there, records are read in batches of which the store may leave some undone and each may be sent twice. If no
batch get is planned to fail, the answer is what is read one by one without failures, and what is not there is left out.
Else the answer is a beginning of that, which is all that the store had answered before it failed; or the failure, if
the store had answered no record.
-/
theorem batchGet_gathers {shape : TableShape} (hreached : t.Reached shape) (hkey : shape.key = c.entity.keyShape)
    (hne : c.entity.partitionField ≠ c.entity.sortField) (ht : s.tables.find c.entity.table = some t)
    (hvalue : Text.isBlankText c.entity.partitionValue = false) (hids : ∀ id ∈ ids, Text.isBlankText id = false)
    (hsuffix : ∀ ch ∈ suffix.toList, ch.isAlphanum = true) {fields : Option (List String)}
    (hn : (fields.getD []).length < Numeral.natBound) (hrounds : 2 ≤ c.settings.batchRounds) :
    ∃ all : List Record,
      (∀ (reads : List (String × String)) (s₀ : MemoryStore), reads.map (·.2) = ids →
        (∀ read ∈ reads, ∀ ch ∈ read.1.toList, ch.isAlphanum = true) → s₀.tables = s.tables →
        s₀.faults.failures = [] → (c.getEach fields reads s₀).1 = .ok all) ∧
      ((∀ f ∈ s.faults.failures, f.operation ≠ .batchGetItem) → (c.batchGet suffix ids fields s).1 = .ok all) ∧
      ∃ st : Answering MemoryStore,
        c.batchGet suffix ids fields (⟨s, []⟩ : Answering MemoryStore) = ((c.batchGet suffix ids fields s).1, st) ∧
        st.store = (c.batchGet suffix ids fields s).2 ∧
        match (c.batchGet suffix ids fields s).1 with
        | .ok records => records <+: all ∧ records = c.collected st.answers
        | .error e => c.collected st.answers = [] ∧ ∃ cause, e = .store cause ∧ s.faults.Plans .batchGetItem cause := by
  rw [← hreached.shape_eq] at hkey
  have hs := hreached.sound
  obtain ⟨projection, hprojection, hprojects⟩ := c.projection_projects hsuffix hn
  have hrun {σ : Type} [Store σ] (s : σ) : c.batchGet suffix ids fields s =
      c.getChunks projection (chunksOf getChunk ids) [] s := by
    have hfields : c.projection suffix fields = .ok projection := hprojection
    rw [batchGet, forM_eq_ok.2 fun id hid => checkId_of_not_blank (hids id hid), hfields]
    rfl
  have hpieces : ∀ chunk ∈ chunksOf getChunk ids, chunk ≠ [] ∧ chunk.length ≤ getChunk :=
    fun chunk hchunk => ⟨ne_nil_of_mem_cut (by decide) chunk hchunk, length_le_of_mem_cut chunk hchunk⟩
  have htwice : 2 ≤ c.maxRounds := Nat.le_trans hrounds (Nat.le_max_left _ _)
  have hchunks := (Gathered.start c s).chunks hs hkey hne ht htwice hprojects _ hpieces
  rw [flatten_chunksOf (by decide), ← hrun] at hchunks
  obtain ⟨hstore, hagree⟩ := relates_batchGet_answering c suffix ids fields ⟨s, []⟩ s rfl
  have hsame := hagree.eq
  -- what the store answers is known where its answers are kept
  refine ⟨c.shown t (fields.getD []) ids, ?_, ?_, (c.batchGet suffix ids fields (⟨s, []⟩ : Answering MemoryStore)).2,
    Prod.ext hsame rfl, hstore, ?_⟩
  · rintro reads s₀ rfl hsuffixes htables hf
    refine getEach_shown hs hkey hne hvalue hn (fun read hread => ⟨hsuffixes read hread, ?_⟩) (htables ▸ ht) hf
    exact hids _ (List.mem_map_of_mem hread)
  · intro hnone
    rw [← hsame]
    obtain ⟨st, hok, -⟩ | ⟨_, _, e, _, -, ⟨f, hf, hoperation, -⟩, -⟩ := hchunks
    · rw [hok]
      rfl
    · exact absurd hoperation (hnone f hf)
  · rw [← hsame]
    obtain ⟨st, hok, h⟩ | ⟨now, left, e, st, hnow, hplanned, hfail, h⟩ := hchunks
    · rw [hok]
      exact ⟨List.prefix_rfl, h.answers.symm⟩
    · rw [List.nil_append] at hfail h
      rw [stopped] at hfail
      cases hempty : (c.shown t (fields.getD []) now).isEmpty with
      | true =>
        rw [hempty, if_pos rfl] at hfail
        rw [hfail]
        exact ⟨h.answers.trans (List.isEmpty_iff.1 hempty), e, rfl, hplanned⟩
      | false =>
        rw [hempty, if_neg Bool.false_ne_true] at hfail
        rw [hfail]
        refine ⟨?_, h.answers.symm⟩
        rw [hnow, shown_append]
        exact List.prefix_append _ _

/-- A batch of which two keys are left undone, with an id that is twice there and one that is not: all is read in the
second round, or what was read in the first is the answer if the second round fails. -/
theorem batchGet_gathers_undone :
    let shape : TableShape := ⟨"t", ⟨⟨"pk", .text⟩, some ⟨"id", .text⟩⟩, []⟩
    let item (id x : String) : Item := [("id", .text id), ("pk", .text "p"), ("x", .text x)]
    let c : Collection :=
      { entity := { table := "t", partitionValue := "p", partitionField := "pk" }, settings := { batchRounds := 2 } }
    let ids := ["2", "9", "1", "2"]
    let found (x : String) : Record := [("x", .string x)]
    ∃ t : Table, t.Reached shape ∧ t.items = [item "1" "A", item "2" "B"] ∧
      let s : MemoryStore := ⟨[("t", t)], { undone := [(.batchGetItem, 2)] }⟩
      let failing : MemoryStore := { s with faults := { s.faults with failures := [⟨.batchGetItem, 2, .throttled⟩] } }
      (c.batchGet "5f" ids (some ["x"]) s).1 = .ok [found "B", found "A", found "B"] ∧
      (c.getEach (some ["x"]) (ids.map ("6a", ·)) s).1 = .ok [found "B", found "A", found "B"] ∧
      (c.batchGet "5f" ids (some ["x"]) failing).1 = .ok [found "B"] ∧
      ∃ all, (c.getEach (some ["x"]) (ids.map ("6a", ·)) s).1 = .ok all ∧ [found "B"] <+: all := by
  intro shape item c ids found
  have hordered : ∀ id x, Fields.Ordered (item id x) := fun _ _ =>
    List.pairwise_map.1 (show ["id", "pk", "x"].Pairwise (· < ·) by decide)
  obtain ⟨t, ht⟩ : ∃ t : Table, ⟨shape, [(.text "p", [(some (.text "1"), item "1" "A"),
      (some (.text "2"), item "2" "B")])]⟩ = t := ⟨_, rfl⟩
  have hreached : t.Reached shape := by
    subst ht
    exact .put (.put .empty (hordered "1" "A") (by rfl)) (hordered "2" "B") (by rfl)
  refine ⟨t, hreached, by subst ht; rfl, ?_⟩
  intro s failing
  have hall : (c.batchGet "5f" ids (some ["x"]) s).1 = .ok [found "B", found "A", found "B"] := by
    subst ht
    unfold s c ids found item shape
    cbv
  have hsome : (c.batchGet "5f" ids (some ["x"]) failing).1 = .ok [found "B"] := by
    subst ht
    unfold failing s c ids found item shape
    cbv
  have hblank : ∀ id ∈ ids, Text.isBlankText id = false := by decide
  have hsuffix : ∀ ch ∈ "5f".toList, ch.isAlphanum = true := List.all_eq_true.1 rfl
  have hreads : ∀ read ∈ ids.map ("6a", ·), ∀ ch ∈ read.1.toList, ch.isAlphanum = true := by
    intro read hread
    obtain ⟨id, -, rfl⟩ := List.mem_map.1 hread
    have hall : "6a".toList.all Char.isAlphanum = true := rfl
    exact List.all_eq_true.1 hall
  have hnames : (ids.map ("6a", ·)).map (·.2) = ids := rfl
  have hfields : ((some ["x"] : Option (List String)).getD []).length < Numeral.natBound := by decide
  obtain ⟨all, heach, hquiet, -⟩ := batchGet_gathers (c := c) (s := s) hreached rfl (by decide) rfl (by decide) hblank
    hsuffix hfields (Nat.le_refl 2)
  obtain ⟨all', heach', -, st, -, -, hends⟩ := batchGet_gathers (c := c) (s := failing) hreached rfl (by decide) rfl
    (by decide) hblank hsuffix hfields (Nat.le_refl 2)
  have hnone : ∀ f ∈ s.faults.failures, f.operation ≠ .batchGetItem := fun _ hf => absurd hf List.not_mem_nil
  rw [hsome] at hends
  rw [hquiet hnone] at hall
  cases hall
  exact ⟨hquiet hnone, heach _ s hnames hreads rfl rfl, hsome, all', heach' _ s hnames hreads rfl rfl, hends.1⟩

end Collection

end RecordStore
