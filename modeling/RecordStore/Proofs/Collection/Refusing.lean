import RecordStore.Proofs.Collection.Pages
import RecordStore.Proofs.Collection.Saving

/-!
# Mistakes of the caller

What a caller got wrong is told before the store is called. A call is `Blameless` if it never says that the caller got
something wrong, as are all calls of a store, and it `Refuses` if it leaves the store as it was whenever it says so.
After a call that refuses there may be blameless ones.

A `Task` is what may be asked of a collection. **`Task.refused_calls_nothing`**: whatever is asked for, a store in
memory is as it was after a task that was refused, its calls, its plans and its tables, but for the update of a record.
There the check of the collection sees a record only after it was read (`Collection.update_refused`).
-/

namespace RecordStore

namespace Call

variable {σ α β : Type} {x : Call σ AccessError α} {f : α → Call σ AccessError β}

/-! ## Calls that refuse -/

/-- The caller got nothing wrong. -/
def Blameless (x : Call σ AccessError α) : Prop :=
  ∀ s s' e, x s = (.error e, s') → e.isValidation = false

/-- If the caller got something wrong, the store is as it was. -/
def Refuses (x : Call σ AccessError α) : Prop :=
  ∀ s s' e, x s = (.error e, s') → e.isValidation = true → s' = s

theorem blameless_pure (a : α) : Blameless (pure a : Call σ AccessError α) := nofun

theorem blameless_throw {e : AccessError} (h : e.isValidation = false) :
    Blameless (throw e : Call σ AccessError α) := by
  intro s s' e' he
  cases he
  exact h

/-- The store never says that the caller got something wrong. -/
theorem blameless_ofStore (call : Call σ StoreError α) : Blameless (Collection.ofStore call) := by
  intro s s' e he
  rw [Collection.ofStore, mapError_eq] at he
  have hr := (Prod.mk.inj he).1
  cases hcall : (call s).1 with
  | ok a =>
    rw [hcall] at hr
    cases hr
  | error cause =>
    rw [hcall] at hr
    cases hr
    rfl

theorem Blameless.bind (hx : Blameless x) (hf : ∀ a, Blameless (f a)) : Blameless (x >>= f) := by
  intro s s' e he
  rcases bind_error he with he | ⟨a, s₁, -, he⟩
  · exact hx s s' e he
  · exact hf a s₁ s' e he

theorem Blameless.refuses (hx : Blameless x) : Refuses x := by
  intro s s' e he hv
  rw [hx s s' e he] at hv
  cases hv

theorem Refuses.bind (hx : Refuses x) (hf : ∀ a, Blameless (f a)) : Refuses (x >>= f) := by
  intro s s' e he hv
  rcases bind_error he with he | ⟨a, s₁, -, he⟩
  · exact hx s s' e he hv
  · rw [hf a s₁ s' e he] at hv
    cases hv

/-- Before a call that refuses there may be checks. -/
theorem Refuses.check {r : Except AccessError α} (hf : ∀ a, Refuses (f a)) : Refuses (ofExcept r >>= f) := by
  intro s s' e he hv
  rcases bind_ofExcept_error he with ⟨-, rfl⟩ | ⟨a, -, he⟩
  · rfl
  · exact hf a s s' e he hv

theorem Refuses.map (hx : Refuses x) (g : α → β) : Refuses (g <$> x) := by
  intro s s' e he hv
  have hbind : (g <$> x) = x >>= fun a => pure (g a) := (bind_pure_comp g x).symm
  rw [hbind] at he
  exact hx.bind (fun a => blameless_pure (g a)) s s' e he hv

end Call

open Call (Blameless Refuses)

variable {σ : Type} [Store σ]

namespace Page

theorem blameless_rounds (what : Selection) (descending : Bool) (size cap : Option Nat) :
    ∀ (n : Nat) (buffer : List Item) (start : Option Key),
      Blameless (rounds what descending size cap n buffer start : Call σ AccessError Page)
  | 0, _, _ => Call.blameless_pure _
  | n + 1, buffer, start => by
    intro s s' e he
    cases hpart : readPart what descending cap start s with
    | mk r s₁ =>
      cases r with
      | error cause =>
        rw [rounds_of_error hpart] at he
        split at he
        · cases he
          rfl
        · cases he
      | ok part =>
        obtain ⟨items, last⟩ := part
        rw [rounds_of_ok hpart] at he
        cases hfull : size.filter fun size => size ≤ (buffer ++ items).length with
        | some size' =>
          rw [hfull] at he
          cases he
        | none =>
          rw [hfull] at he
          cases last with
          | none => cases he
          | some key => exact blameless_rounds what descending size cap n _ _ s₁ s' e he

/-- A page is refused for its cursor only, which is looked at before anything is read. -/
theorem refuses_read (settings : Settings) (what : Selection) (paging : Paging) :
    Refuses (read settings what paging : Call σ AccessError Page) := by
  refine .check fun start => ?_
  have hget : Blameless (get : Call σ AccessError σ) := nofun
  exact (hget.bind fun s => blameless_rounds _ _ _ _ _ _ _).refuses

end Page

namespace Collection

variable {c : Collection}

/-! ## Reads by id -/

theorem refuses_get (c : Collection) (suffix id : String) (fields : Option (List String)) :
    Refuses (c.get suffix id fields : Call σ AccessError (Option Record)) :=
  .check fun _ => .check fun _ => ((Call.blameless_ofStore _).bind fun _ => Call.blameless_pure _).refuses

theorem refuses_exists (c : Collection) (suffix id : String) :
    Refuses (c.exists? suffix id : Call σ AccessError Bool) :=
  (c.refuses_get suffix id _).bind fun _ => Call.blameless_pure _

theorem blameless_getRounds (c : Collection) : ∀ (n : Nat) (batch : KeyBatch) (found : List Record),
    Blameless (c.getRounds n batch found : Call σ AccessError (List Record × Bool))
  | 0, _, _ => Call.blameless_pure _
  | n + 1, batch, found => by
    intro s s' e he
    have hbatch := Call.blameless_ofStore (Store.batchGet ⟨[(c.entity.table, batch)]⟩ : Call σ StoreError _) s
    rw [getRounds, Call.bind_eq, Call.attempt_eq] at he
    cases hanswer : ofStore (σ := σ) (Store.batchGet ⟨[(c.entity.table, batch)]⟩) s with
    | mk r s₁ =>
      rw [hanswer] at he hbatch
      cases r with
      | error cause =>
        dsimp only at he
        split at he
        · cases he
          exact hbatch _ _ rfl
        · cases he
      | ok response =>
        dsimp only at he
        cases hleft : (response.unprocessed.find c.entity.table).filter fun left => !left.keys.isEmpty with
        | some left =>
          rw [hleft] at he
          exact c.blameless_getRounds n _ _ s₁ s' e he
        | none =>
          rw [hleft] at he
          cases he

theorem blameless_getChunks (c : Collection) (projection : Compiled) : ∀ (chunks : List (List String))
    (found : List Record), Blameless (c.getChunks projection chunks found : Call σ AccessError (List Record))
  | [], _ => Call.blameless_pure _
  | ids :: rest, found => by
    refine (c.blameless_getRounds _ _ _).bind fun ⟨found, failed⟩ => ?_
    cases failed with
    | true => exact Call.blameless_pure _
    | false => exact c.blameless_getChunks projection rest found

theorem refuses_batchGet (c : Collection) (suffix : String) (ids : List String) (fields : Option (List String)) :
    Refuses (c.batchGet suffix ids fields : Call σ AccessError (List Record)) :=
  .check fun _ => .check fun _ => (c.blameless_getChunks _ _ _).refuses

/-! ## Pages -/

theorem refuses_page (c : Collection) (suffix : String) (q : PageQuery) :
    Refuses (c.page suffix q : Call σ AccessError PageOfRecords) := by
  rw [page_eq]
  refine .check fun ⟨what, hidden⟩ => ?_
  exact (Page.refuses_read c.settings what q.paging).bind fun _ => Call.blameless_pure _

theorem refuses_queryAll (c : Collection) (suffix : String) (q : KeyQuery) :
    Refuses (c.queryAll suffix q : Call σ AccessError (List Record)) :=
  (c.refuses_page suffix (.byKey { q with paging := unpaged q.paging })).bind fun _ => Call.blameless_pure _

theorem refuses_indexQueryAll (c : Collection) (suffix : String) (q : IndexQuery) :
    Refuses (c.indexQueryAll suffix q : Call σ AccessError (List Record)) :=
  (c.refuses_page suffix (.byIndex { q with paging := unpaged q.paging })).bind fun _ => Call.blameless_pure _

/-! ## Writes -/

/-- A record that is refused when it is saved has been rejected by the check of the collection. -/
theorem save_refused {record : Record} {s s' : σ} {e : AccessError} (he : c.save record s = (.error e, s'))
    (hv : e.isValidation = true) : c.check record = .error e ∧ s' = s := by
  rcases Call.bind_ofExcept_error he with hcheck | ⟨checked, -, he⟩
  · exact hcheck
  · have hblameless : Blameless (do
        let stored := Fields.merge checked (c.ownFields record)
        let _ ← ofStore (σ := σ) (Store.put { table := c.entity.table, item := Record.toItem stored })
        return stored) := (Call.blameless_ofStore _).bind fun _ => Call.blameless_pure _
    rw [hblameless s s' e he] at hv
    cases hv

theorem refuses_save (c : Collection) (record : Record) : Refuses (c.save record : Call σ AccessError Record) :=
  fun _ _ _ he hv => (save_refused he hv).2

theorem refuses_create (c : Collection) (freshId now : String) (data : Json) :
    Refuses (c.create freshId now data : Call σ AccessError Record) :=
  .check fun _ => .check fun _ => c.refuses_save _

theorem refuses_replace (c : Collection) (now : String) (data : Json) :
    Refuses (c.replace now data : Call σ AccessError Record) := by
  refine .check fun record => ?_
  cases c.entity.id? record with
  | none =>
    intro s s' e he _
    cases he
    rfl
  | some id => exact .check fun _ => c.refuses_save _

theorem refuses_delete (c : Collection) (id : String) : Refuses (c.delete id : Call σ AccessError Record) := by
  refine .check fun _ => (c.refuses_get "" id none).bind fun found => ?_
  cases found with
  | none => exact Call.blameless_throw rfl
  | some record => exact (Call.blameless_ofStore _).bind fun _ => Call.blameless_pure _

theorem blameless_deleteRounds (c : Collection) : ∀ (n : Nat) (batch : List WriteEntry),
    Blameless (c.deleteRounds n batch : Call σ AccessError Unit)
  | 0, [] => Call.blameless_pure _
  | _ + 1, [] => Call.blameless_pure _
  | 0, _ :: _ => Call.blameless_throw rfl
  | n + 1, _ :: _ => (Call.blameless_ofStore _).bind fun _ => c.blameless_deleteRounds n _

theorem blameless_deleteChunks (c : Collection) : ∀ chunks : List (List String),
    Blameless (c.deleteChunks chunks : Call σ AccessError Unit)
  | [] => Call.blameless_pure _
  | _ :: rest => (c.blameless_deleteRounds _ _).bind fun _ => c.blameless_deleteChunks rest

theorem refuses_deleteMany (c : Collection) (ids : List String) :
    Refuses (c.deleteMany ids : Call σ AccessError Unit) :=
  .check fun _ => (c.blameless_deleteChunks _).refuses

/-- An update that is refused has called nothing, or it has read the record and then found fault with the changes. -/
theorem update_refused {id : String} {data : Json} {s s' : σ} {e : AccessError}
    (he : c.update id data s = (.error e, s')) (hv : e.isValidation = true) :
    s' = s ∨ ∃ changes record, Record.ofJson data = .ok changes ∧ c.get "" id none s = (.ok (some record), s') ∧
      (c.entity.demandFields changes = .error e ∨
        c.check (c.entity.stamp id (Fields.merge record changes)) = .error e) := by
  rcases Call.bind_ofExcept_error he with ⟨-, rfl⟩ | ⟨changes, hchanges, he⟩
  · exact .inl rfl
  rcases Call.bind_ofExcept_error he with ⟨-, rfl⟩ | ⟨_, -, he⟩
  · exact .inl rfl
  rcases Call.bind_error he with he | ⟨found, s₁, hget, he⟩
  · exact .inl (c.refuses_get "" id none s s' e he hv)
  cases found with
  | none =>
    cases he
    cases hv
  | some record =>
    rcases Call.bind_ofExcept_error he with ⟨hdemand, rfl⟩ | ⟨_, -, he⟩
    · exact .inr ⟨changes, record, hchanges, hget, .inl hdemand⟩
    · obtain ⟨hcheck, rfl⟩ := save_refused he hv
      exact .inr ⟨changes, record, hchanges, hget, .inr hcheck⟩

end Collection

/-! ## Tasks -/

/-- What may be asked of a collection. -/
inductive Task where
  | create (freshId now : String) (data : Json)
  | replace (now : String) (data : Json)
  | update (id : String) (data : Json)
  | delete (id : String)
  | deleteMany (ids : List String)
  | get (suffix id : String) (fields : Option (List String))
  | exists (suffix id : String)
  | batchGet (suffix : String) (ids : List String) (fields : Option (List String))
  | page (suffix : String) (q : PageQuery)
  | queryAll (suffix : String) (q : KeyQuery)
  | indexQueryAll (suffix : String) (q : IndexQuery)

namespace Task

/-- Does a task, whatever its answer is. -/
def run (c : Collection) : Task → Call σ AccessError Unit
  | .create freshId now data => (fun _ => ()) <$> c.create freshId now data
  | .replace now data => (fun _ => ()) <$> c.replace now data
  | .update id data => (fun _ => ()) <$> c.update id data
  | .delete id => (fun _ => ()) <$> c.delete id
  | .deleteMany ids => c.deleteMany ids
  | .get suffix id fields => (fun _ => ()) <$> c.get suffix id fields
  | .exists suffix id => (fun _ => ()) <$> c.exists? suffix id
  | .batchGet suffix ids fields => (fun _ => ()) <$> c.batchGet suffix ids fields
  | .page suffix q => (fun _ => ()) <$> c.page suffix q
  | .queryAll suffix q => (fun _ => ()) <$> c.queryAll suffix q
  | .indexQueryAll suffix q => (fun _ => ()) <$> c.indexQueryAll suffix q

/-- Every task but an update refuses. -/
theorem refuses_run (c : Collection) (task : Task) (h : ∀ id data, task ≠ .update id data) :
    Refuses (task.run c : Call σ AccessError Unit) := by
  cases task with
  | create freshId now data => exact (c.refuses_create freshId now data).map _
  | replace now data => exact (c.refuses_replace now data).map _
  | update id data => exact absurd rfl (h id data)
  | delete id => exact (c.refuses_delete id).map _
  | deleteMany ids => exact c.refuses_deleteMany ids
  | get suffix id fields => exact (c.refuses_get suffix id fields).map _
  | «exists» suffix id => exact (c.refuses_exists suffix id).map _
  | batchGet suffix ids fields => exact (c.refuses_batchGet suffix ids fields).map _
  | page suffix q => exact (c.refuses_page suffix q).map _
  | queryAll suffix q => exact (c.refuses_queryAll suffix q).map _
  | indexQueryAll suffix q => exact (c.refuses_indexQueryAll suffix q).map _

end Task

theorem Faults.note_calls (faults : Faults) (operation : Operation) :
    (faults.note operation).2.calls = operation :: faults.calls := by
  unfold note
  dsimp only
  split <;> rfl

namespace Collection

/-- A record that was found by its id has been read by one request. -/
theorem get_calls {c : Collection} {suffix id : String} {s s' : MemoryStore} {found : Option Record}
    (h : c.get suffix id none s = (.ok found, s')) :
    s'.tables = s.tables ∧ s'.faults.calls = .getItem :: s.faults.calls := by
  obtain ⟨u, hcheck, -⟩ := Call.bind_ofExcept_ok h
  rw [get_eq hcheck] at h
  obtain ⟨-, rfl⟩ := Prod.mk.inj h
  rw [MemoryStore.get, MemoryStore.record_ask]
  exact ⟨rfl, Faults.note_calls s.faults .getItem⟩

/-- One request has read the record with an id, and the check has rejected what the changes make of it. -/
structure RejectsRead (c : Collection) (id : String) (data : Json) (s s' : MemoryStore) (e : AccessError) : Prop where
  calls : s'.faults.calls = .getItem :: s.faults.calls
  rejects : ∃ changes record, Record.ofJson data = .ok changes ∧ (c.get "" id none s).1 = .ok (some record) ∧
    c.check (c.entity.stamp id (Fields.merge record changes)) = .error e

end Collection

/--
**What a caller gets wrong does not reach the store.** A task that is refused leaves the store as it was, unless it is
an update. An update, too, leaves all tables as they were; and unless it is refused for a required field that the data
lacks, it has called nothing, or it has read the record once and the check has rejected the changed record.
-/
theorem Task.refused_calls_nothing (c : Collection) (task : Task) (s : MemoryStore) {e : AccessError}
    (he : (task.run c s).1 = .error e) (hv : e.isValidation = true) :
    (task.run c s).2.tables = s.tables ∧ ((∀ id data, task ≠ .update id data) → (task.run c s).2 = s) ∧
      ∀ id data, task = .update id data →
        (∀ changes, Record.ofJson data = .ok changes → c.entity.demandFields changes ≠ .error e) →
          (task.run c s).2 = s ∨ c.RejectsRead id data s (task.run c s).2 e := by
  by_cases h : ∀ id data, task ≠ .update id data
  · have hsame : (task.run c s).2 = s := Task.refuses_run c task h s _ e (Prod.ext he rfl) hv
    refine ⟨by rw [hsame], fun _ => hsame, fun id data htask => absurd htask (h id data)⟩
  · have hupdate : ∃ id data, task = .update id data := by
      simpa only [ne_eq, Classical.not_forall, Classical.not_not] using h
    obtain ⟨id, data, rfl⟩ := hupdate
    have hrun : c.update id data s = (.error e, ((Task.update id data).run c s).2) := by
      rw [Task.run, Call.map_eq] at he ⊢
      cases hr : (c.update id data s).1 with
      | error e' =>
        rw [hr] at he
        cases he
        exact Prod.ext hr rfl
      | ok record =>
        rw [hr] at he
        cases he
    rcases Collection.update_refused hrun hv with hsame | ⟨changes, record, hchanges, hget, hfault⟩
    · exact ⟨by rw [hsame], fun _ => hsame, fun _ _ _ _ => .inl hsame⟩
    · obtain ⟨htables, hcalls⟩ := Collection.get_calls hget
      refine ⟨htables, fun hno => absurd rfl (hno id data), fun id' data' htask hdemand => .inr ?_⟩
      cases htask
      rcases hfault with hlacks | hcheck
      · exact absurd hlacks (hdemand changes hchanges)
      · exact ⟨hcalls, changes, record, hchanges, by rw [hget], hcheck⟩

/-- A batch delete with a blank id among the others. -/
theorem Task.blank_calls_nothing :
    let c : Collection := { entity := { table := "t", partitionValue := "user" } }
    let task := Task.deleteMany ["1", " ", "3"]
    let s : MemoryStore := { faults := { calls := [.query] } }
    ∃ e, (task.run c s).1 = .error e ∧ e.isValidation = true ∧ (task.run c s).2 = s := by
  intro c task s
  refine ⟨.misuse (.blank ["Id"]), by rfl, by rfl, ?_⟩
  exact (Task.refused_calls_nothing c task s (e := .misuse (.blank ["Id"])) (by rfl) (by rfl)).2.1 nofun

/-- An update that the check rejects has called the store before it is refused. -/
theorem Task.update_calls_before_refusal :
    let list : FieldList := { specs := [⟨"name", .string, true⟩] }
    let c : Collection :=
      { entity := { table := "t", partitionValue := "user" }, check := fun r => (list.check r).mapError .badFields }
    let task := Task.update "1" (.object [("name", .number (.whole 5))])
    let shape : TableShape := ⟨"t", ⟨⟨"featurePartition", .text⟩, some ⟨"id", .text⟩⟩, []⟩
    let t : Table := ⟨shape, [(.text "user",
      [(some (.text "1"), [("featurePartition", .text "user"), ("id", .text "1"), ("name", .text "ann")])])]⟩
    let s : MemoryStore := { tables := [("t", t)] }
    (task.run c s).1 = .error (.badFields [.wrongType "name" .string .number]) ∧
      AccessError.isValidation (.badFields [.wrongType "name" .string .number]) = true ∧
      s.faults.timesCalled .getItem = 0 ∧ (task.run c s).2.faults.timesCalled .getItem = 1 := by
  intro list c task shape t s
  refine ⟨?_, rfl, rfl, ?_⟩
  · unfold task c s t shape list; cbv
  · unfold task c s t shape list; cbv

end RecordStore
