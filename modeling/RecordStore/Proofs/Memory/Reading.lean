import RecordStore.Memory.Store
import RecordStore.Paging.Page
import RecordStore.Proofs.Store.Calls

/-!
# What a store in memory answers to a read

Of the faults that are planned, a read meets one, which then is gone, or none (`Faults.note_cases`); the ceiling stays.
What a selection asks to read of a table is the same for every part of a page, limits and starts aside
(`Selection.plan`). **`MemoryStore.readPart_eq`**: a part of a page is a planned failure or the read of the table, and
the tables stay as they are.
-/

namespace RecordStore

/-! ## Faults -/

namespace Faults

theorem note_error {faults : Faults} {operation : Operation} {e : StoreError}
    (h : (faults.note operation).1 = .error e) :
    (faults.note operation).2.failures.length + 1 = faults.failures.length := by
  simp only [note] at h ⊢
  split at h
  · rename_i f hf
    have hlen := List.length_eraseP_of_mem (List.mem_of_find?_eq_some hf) (List.find?_some hf)
    have hpos := List.length_pos_of_mem (List.mem_of_find?_eq_some hf)
    rw [List.length_map] at hlen hpos
    simp only [hlen]
    omega
  · cases h

theorem note_ok {faults : Faults} {operation : Operation} (h : (faults.note operation).1 = .ok ()) :
    (faults.note operation).2.failures.length = faults.failures.length := by
  simp only [note] at h ⊢
  split at h
  · cases h
  · rename_i hf
    simp only [List.length_map]

/-- A call either fails, and one planned failure is gone, or does not, and there are as many as before. -/
theorem note_cases (faults : Faults) (operation : Operation) :
    (∃ e, (faults.note operation).1 = .error e ∧
      (faults.note operation).2.failures.length + 1 = faults.failures.length) ∨
    ((faults.note operation).1 = .ok () ∧
      (faults.note operation).2.failures.length = faults.failures.length) := by
  cases h : (faults.note operation).1 with
  | error e => exact .inl ⟨e, rfl, note_error h⟩
  | ok u => exact .inr ⟨rfl, note_ok h⟩

theorem note_ceiling (faults : Faults) (operation : Operation) :
    (faults.note operation).2.ceiling = faults.ceiling := by
  simp only [note]
  split <;> rfl

theorem limit_congr {faults faults' : Faults} (h : faults.ceiling = faults'.ceiling) (requested : Option Nat) :
    faults.limit requested = faults'.limit requested := by
  unfold limit
  rw [h]

end Faults

/-! ## What is read -/

/-- The operation that reads pages. -/
def ReadKind.operation : ReadKind → Operation
  | .query => .query
  | .scan => .scan

/-- What a selection asks to read of a table, without a limit and from the start. -/
def Selection.plan (what : Selection) (t : Table) (descending : Bool) : Except StoreError TableRead :=
  match what.kind with
  | .query =>
    MemoryStore.tableRead {} t (Page.request what none none) (some what.expressions.keyCondition) (!descending)
  | .scan => MemoryStore.tableRead {} t (Page.request what none none) none true

namespace MemoryStore

variable {s : MemoryStore} {t : Table} {r : ScanRequest} {what : Selection} {descending : Bool} {w : TableRead}

theorem record_eq (operation : Operation) (s : MemoryStore) :
    record operation s = ((s.faults.note operation).1, { s with faults := (s.faults.note operation).2 }) := rfl

/-- What is read of a table depends on the faults, the limit and the start in these places alone. -/
theorem tableRead_eq (s : MemoryStore) (t : Table) (r : ScanRequest) (keyCondition : Option (Option String))
    (forward : Bool) (limit : Option Int) (after : Key) :
    s.tableRead t { r with limit, after } keyCondition forward = (do
      let w ← tableRead {} t { r with limit := none, after := [] } keyCondition forward
      let limit ← checkLimit limit
      .ok { w with limit := s.faults.limit limit, after }) := by
  simp only [tableRead, bind_assoc]
  refine bind_congr fun index => bind_congr fun key => bind_congr fun filter => bind_congr fun projection => ?_
  refine bind_congr fun _ => bind_congr fun _ => ?_
  cases keyCondition.isSome
  · rfl
  · simp only [if_true, bind_assoc]
    exact bind_congr fun _ => rfl

/-- What is read of a table is what the request says. -/
theorem tableRead_ok {keyCondition : Option (Option String)} {forward : Bool}
    (h : s.tableRead t r keyCondition forward = .ok w) :
    findIndex t.shape r.index = .ok w.index ∧ parseOptional Expr.parse keyCondition.join = .ok w.keyCondition ∧
      parseOptional Expr.parse r.filter = .ok w.filter ∧ parseOptional Path.parseList r.projection = .ok w.projection ∧
      w.names = r.names ∧ w.values = r.values ∧ w.forward = forward := by
  unfold tableRead at h
  obtain ⟨index, hindex, h⟩ := bind_eq_ok.1 h
  obtain ⟨key, hkey, h⟩ := bind_eq_ok.1 h
  obtain ⟨filter, hfilter, h⟩ := bind_eq_ok.1 h
  obtain ⟨projection, hprojection, h⟩ := bind_eq_ok.1 h
  obtain ⟨_, -, h⟩ := bind_eq_ok.1 h
  obtain ⟨_, -, h⟩ := bind_eq_ok.1 h
  split at h
  · obtain ⟨_, -, h⟩ := bind_eq_ok.1 h
    obtain ⟨_, -, h⟩ := bind_eq_ok.1 h
    cases h
    exact ⟨hindex, hkey, hfilter, hprojection, rfl, rfl, rfl⟩
  · obtain ⟨_, -, h⟩ := bind_eq_ok.1 h
    cases h
    exact ⟨hindex, hkey, hfilter, hprojection, rfl, rfl, rfl⟩

theorem checkLimit_of_pos {limit : Option Int} (h : ∀ n ∈ limit, 0 < n) :
    checkLimit limit = .ok (limit.map Int.toNat) := by
  cases limit with
  | none => rfl
  | some n =>
    have hn := h n rfl
    rw [checkLimit, if_neg (by omega)]
    rfl

/-- The limit of a request is positive if the read looks at an item at least. -/
theorem saturate32_pos {cap : Option Nat} (h : ∀ n ∈ cap, 0 < n) : ∀ n ∈ cap.map Numeral.saturate32, 0 < n := by
  intro n hn
  obtain ⟨size, hsize, rfl⟩ := Option.map_eq_some_iff.1 hn
  have hpos := h size hsize
  simp only [Numeral.saturate32, Numeral.int32Max]
  omega

theorem checkLimit_cap {cap : Option Nat} (h : ∀ n ∈ cap, 0 < n) :
    checkLimit (cap.map Numeral.saturate32) = .ok (cap.map fun n => (Numeral.saturate32 n).toNat) := by
  rw [checkLimit_of_pos (saturate32_pos h), Option.map_map]
  rfl

/-- The read of a part of a page: so much at most, from a key on. -/
def partOf (faults : Faults) (w : TableRead) (cap : Option Nat) (start : Option Key) : TableRead :=
  { w with limit := faults.limit (cap.map fun n => (Numeral.saturate32 n).toNat), after := start.getD [] }

/-- What a page takes of what was read of a table. -/
def taken (r : ReadOutcome) : List Item × Option Key :=
  (r.items, r.lastKey.filter fun key => !key.isEmpty)

/-- The answer to a read. -/
theorem read_eq (ht : s.tables.find r.table = some t) (keyCondition : Option (Option String)) (forward : Bool) :
    Page.ofResponse <$> s.read r keyCondition forward = (do
      let w ← tableRead {} t { r with limit := none, after := [] } keyCondition forward
      let limit ← checkLimit r.limit
      taken <$> ofTable (t.read { w with limit := s.faults.limit limit, after := r.after })) := by
  have htable : s.table? r.table = .ok t := by rw [table?, ht]
  have hread : s.tableRead t r keyCondition forward = _ :=
    tableRead_eq s t r keyCondition forward r.limit r.after
  simp only [read, htable, hread, bind, Except.bind]
  cases tableRead {} t { r with limit := none, after := [] } keyCondition forward with
  | error e => rfl
  | ok w =>
    dsimp only
    cases checkLimit r.limit with
    | error e => rfl
    | ok limit =>
      dsimp only
      cases ofTable (t.read { w with limit := s.faults.limit limit, after := r.after }) <;> rfl

/-- A call that is counted and then asks. -/
theorem record_ask {α : Type} (operation : Operation) (answer : MemoryStore → Except StoreError α) (s : MemoryStore) :
    (do record operation; ask answer : Action α) s =
      ((s.faults.note operation).1 >>= fun _ => answer { s with faults := (s.faults.note operation).2 },
        { s with faults := (s.faults.note operation).2 }) := by
  rw [Call.bind_eq, record_eq]
  cases (s.faults.note operation).1 <;> rfl

/-- **A part of a page** is a planned failure or the read of the table, if its limit is one. -/
theorem readPart_checked (ht : s.tables.find what.table = some t) (cap : Option Nat) (descending : Bool)
    (start : Option Key) :
    Page.readPart what descending cap start s =
      (do
        (s.faults.note what.kind.operation).1
        let w ← what.plan t descending
        let limit ← checkLimit (cap.map Numeral.saturate32)
        taken <$> ofTable (t.read { w with limit := s.faults.limit limit, after := start.getD [] }),
      { s with faults := (s.faults.note what.kind.operation).2 }) := by
  have hlimit := Faults.limit_congr (s.faults.note_ceiling what.kind.operation)
  have hread := read_eq (s := { s with faults := (s.faults.note what.kind.operation).2 })
    (r := Page.request what cap start) ht
  cases hk : what.kind with
  | query =>
    rw [hk] at hlimit hread
    have hforward : (if descending then some false else none).getD true = !descending := by cases descending <;> rfl
    simp only [ReadKind.operation] at hlimit hread ⊢
    simp only [Page.readPart, Selection.plan, hk, Call.map_eq, Store.query, query, record_ask, hforward, map_bind,
      hread, hlimit]
    rfl
  | scan =>
    rw [hk] at hlimit hread
    simp only [ReadKind.operation] at hlimit hread ⊢
    simp only [Page.readPart, Selection.plan, hk, Call.map_eq, Store.scan, scan, record_ask, map_bind, hread, hlimit]
    rfl

/-- The same of a read that looks at an item at least. -/
theorem readPart_eq (ht : s.tables.find what.table = some t) {cap : Option Nat} (hcap : ∀ n ∈ cap, 0 < n)
    (descending : Bool) (start : Option Key) :
    Page.readPart what descending cap start s =
      (do
        (s.faults.note what.kind.operation).1
        let w ← what.plan t descending
        taken <$> ofTable (t.read (partOf s.faults w cap start)),
      { s with faults := (s.faults.note what.kind.operation).2 }) := by
  rw [readPart_checked ht, checkLimit_cap hcap]
  rfl

/-- A plan has no limit and starts at the start. -/
theorem plan_start (hw : what.plan t descending = .ok w) : w.limit = none ∧ w.after = [] := by
  have h {keyCondition forward} (hr : tableRead {} t (Page.request what none none) keyCondition forward = .ok w) :
      w.limit = none ∧ w.after = [] := by
    have heq : tableRead {} t (Page.request what none none) keyCondition forward = _ :=
      tableRead_eq {} t (Page.request what none none) keyCondition forward none []
    rw [heq] at hr
    cases hp : tableRead {} t { Page.request what none none with limit := none, after := [] } keyCondition forward with
    | error e => rw [hp] at hr; cases hr
    | ok w' => rw [hp] at hr; cases hr; exact ⟨rfl, rfl⟩
  rw [Selection.plan] at hw
  cases hk : what.kind <;> rw [hk] at hw <;> exact h hw

/-- A plan reads the index that is asked for. -/
theorem plan_index (hw : what.plan t descending = .ok w) : w.index = what.index.bind t.shape.index? := by
  have h {keyCondition forward} (hr : tableRead {} t (Page.request what none none) keyCondition forward = .ok w) :
      w.index = what.index.bind t.shape.index? := by
    have hindex : findIndex t.shape what.index = .ok w.index := (tableRead_ok hr).1
    cases hi : what.index with
    | none => rw [hi] at hindex; exact (Except.ok.inj hindex).symm
    | some name =>
      rw [hi, findIndex] at hindex
      split at hindex
      · rename_i index hname
        rw [Option.bind_some, hname, Except.ok.inj hindex]
      · cases hindex
  rw [Selection.plan] at hw
  cases hk : what.kind <;> rw [hk] at hw <;> exact h hw

/-- A read without a limit and without faults is the read that is planned. -/
theorem partOf_start (hw : what.plan t descending = .ok w) : partOf {} w none none = w := by
  obtain ⟨hl, ha⟩ := plan_start hw
  cases w
  cases hl
  cases ha
  rfl

end MemoryStore

end RecordStore
