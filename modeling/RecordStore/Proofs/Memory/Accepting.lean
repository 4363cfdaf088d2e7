import RecordStore.Proofs.Memory.Reading
import RecordStore.Proofs.Table.Reading
import RecordStore.Wire.Request

/-!
# Requests that a store in memory accepts

A store checks a request to read before it reads: its expressions are parsed, their aliases looked up, a key condition
must fix the partition key, a limit must be positive, and the start key must have a position. `MemoryStore.Accepts` says
that a request has nothing to fear of all this, and neither of its expressions when they are evaluated.

**`Request.Accepted.answered`**: a request that is accepted is answered by every store that has the tables, unless a
failure that was planned happens (`Faults.Plans`).
-/

namespace RecordStore

/-! ## Planned failures -/

namespace Faults

/-- An error that one of the planned failures of an operation makes. -/
def Plans (faults : Faults) (operation : Operation) (e : StoreError) : Prop :=
  ∃ f ∈ faults.failures, f.operation = operation ∧ f.error = e

variable {faults : Faults} {operation : Operation} {e : StoreError}

theorem operation_advance (operation : Operation) (f : ComingFailure) :
    (f.advance operation).operation = f.operation ∧ (f.advance operation).error = f.error := by
  unfold ComingFailure.advance
  split <;> exact ⟨rfl, rfl⟩

/-- The failures that are left after a call were planned before it. -/
theorem Plans.of_note {called : Operation} (h : (faults.note called).2.Plans operation e) :
    faults.Plans operation e := by
  obtain ⟨f, hf, hoperation, he⟩ := h
  have hmem : f ∈ faults.failures.map (·.advance called) := by
    unfold note at hf
    dsimp only at hf
    split at hf
    · exact List.mem_of_mem_eraseP hf
    · exact hf
  obtain ⟨g, hg, rfl⟩ := List.mem_map.1 hmem
  obtain ⟨hop, herror⟩ := operation_advance called g
  exact ⟨g, hg, hop.symm.trans hoperation, herror.symm.trans he⟩

/-- A call that fails does so by one of the failures planned for its operation. -/
theorem plans_of_note (h : (faults.note operation).1 = .error e) : faults.Plans operation e := by
  unfold note at h
  dsimp only at h
  split at h
  · rename_i f hf
    obtain ⟨g, hg, rfl⟩ := List.mem_map.1 (List.mem_of_find?_eq_some hf)
    obtain ⟨hop, herror⟩ := operation_advance operation g
    have hdue := List.find?_some hf
    rw [ComingFailure.isDue, Bool.and_eq_true, decide_eq_true_eq] at hdue
    exact ⟨g, hg, hop.symm.trans hdue.1, herror.symm.trans (Except.error.inj h)⟩
  · cases h

/-- A call that has an answer fails by plan alone. -/
theorem answered_or_planned {α β : Type} (f : α → β) (a : α) :
    (∃ b, f <$> ((faults.note operation).1 >>= fun _ => .ok a) = .ok b) ∨
      ∃ e, f <$> ((faults.note operation).1 >>= fun _ => .ok a) = .error e ∧ faults.Plans operation e := by
  cases hnote : (faults.note operation).1 with
  | ok _ => exact .inl ⟨f a, rfl⟩
  | error e => exact .inr ⟨e, rfl, plans_of_note hnote⟩

end Faults

/-! ## Reads -/

/-- The key by which a read finds its partition: that of the index, if one is read, or that of the table. -/
def TableShape.keyOf (shape : TableShape) (index : Option IndexShape) : KeyShape :=
  match index with
  | some i => i.key
  | none => shape.key

namespace MemoryStore

variable {t : Table} {r : ScanRequest} {keyCondition : Option (Option String)} {w : TableRead}

/--
A request to read that a table accepts, and what it asks to read: its expressions are read and all their aliases stand
for something, the key condition of a query fixes the partition key, the limit is positive, the start key has a
position, and no expression fails on an item of the table.
-/
structure Accepts (t : Table) (r : ScanRequest) (keyCondition : Option (Option String)) (w : TableRead) : Prop where
  index : findIndex t.shape r.index = .ok w.index
  key : parseOptional Expr.parse keyCondition.join = .ok w.keyCondition
  filter : parseOptional Expr.parse r.filter = .ok w.filter
  projection : parseOptional Path.parseList r.projection = .ok w.projection
  names : w.names = r.names
  values : w.values = r.values
  resolvesKey : ∀ e ∈ w.keyCondition, e.check r.names r.values = .ok ()
  resolvesFilter : ∀ e ∈ w.filter, e.check r.names r.values = .ok ()
  resolvesProjection : ∀ paths ∈ w.projection, ∀ p ∈ paths, Expr.checkPath r.names p = .ok ()
  pins : keyCondition.isSome → ∃ e, w.keyCondition = some e ∧
    e.pins r.names (t.shape.keyOf w.index).partition.name = true
  limit : ∀ n ∈ r.limit, 0 < n
  start : ∃ position, Table.startPosition (t.shape.readOrder w.index) r.after = .ok position
  evaluates : w.Evaluates t.items

theorem checkOptional_ok {condition : Option Expr} (h : ∀ e ∈ condition, e.check r.names r.values = .ok ()) :
    checkOptional r condition = .ok () := by
  cases condition with
  | none => rfl
  | some e =>
    rw [checkOptional, h e rfl]
    rfl

/-- What a request that is accepted asks to read. -/
theorem Accepts.tableRead (h : Accepts t r keyCondition w) (s : MemoryStore) (forward : Bool) :
    s.tableRead t r keyCondition forward =
      .ok { w with forward, limit := s.faults.limit (r.limit.map Int.toNat), after := r.after } := by
  have hkey := checkOptional_ok h.resolvesKey
  have hfilter := checkOptional_ok h.resolvesFilter
  have hpins : keyCondition.isSome →
      checkKeyCondition r.names (t.shape.keyOf w.index) w.keyCondition = .ok () := by
    intro hquery
    obtain ⟨e, he, hpinned⟩ := h.pins hquery
    rw [he, checkKeyCondition, if_pos hpinned]
  unfold MemoryStore.tableRead
  simp only [h.index, h.key, h.filter, h.projection, hkey, hfilter, checkLimit_of_pos h.limit, ← h.names,
    ← h.values, bind, Except.bind]
  split
  · rename_i hquery
    have hfixed := hpins hquery
    rw [← h.names] at hfixed
    cases hindex : w.index <;> rw [hindex] at hfixed <;> simp only [TableShape.keyOf] at hfixed <;> rw [hfixed]
  · rfl

/-- What is ahead of a start are items of the table. -/
theorem subset_of_ahead {items : List Item} (h : t.ahead w = .ok items) : items ⊆ t.items := by
  obtain ⟨position, -, h⟩ := bind_eq_ok.1 h
  cases h
  intro item hitem
  obtain ⟨entry, hentry, rfl⟩ := List.mem_map.1 hitem
  exact (Table.mem_ordered.1 (List.mem_filter.1 hentry).1).1

/-- **A request that is accepted is answered** once its call is counted. -/
theorem Accepts.read (h : Accepts t r keyCondition w) (s : MemoryStore) (ht : s.tables.find r.table = some t)
    (forward : Bool) : ∃ response, s.read r keyCondition forward = .ok response := by
  have htable : s.table? r.table = .ok t := by rw [table?, ht]
  generalize hasked : ({ w with forward, limit := s.faults.limit (r.limit.map Int.toNat), after := r.after } :
    TableRead) = asked
  obtain ⟨position, hposition⟩ := h.start
  have hahead : ∃ items, t.ahead asked = .ok items := by
    subst hasked
    rw [Table.ahead, hposition]
    exact ⟨_, rfl⟩
  obtain ⟨items, hitems⟩ := hahead
  have hevaluates : asked.Evaluates items := by
    subst hasked
    exact TableRead.Evaluates.sublist h.evaluates (subset_of_ahead hitems)
  obtain ⟨outcome, hwalk, -⟩ :=
    @TableRead.walk_walked asked (Table.keyIn (t.shape.readOrder asked.index)) items 0 hevaluates
  have hread : t.read asked = .ok outcome := by
    rw [Table.read_eq, hitems]
    exact hwalk
  refine ⟨⟨outcome.items, Numeral.saturate32 outcome.items.length, Numeral.saturate32 outcome.scanned,
    outcome.lastKey⟩, ?_⟩
  rw [MemoryStore.read, htable]
  simp only [bind, Except.bind, h.tableRead, hasked, hread]
  rfl

end MemoryStore

/-! ## Requests -/

namespace Request

/-- A query or scan that one of some tables accepts. -/
inductive Accepted (tables : Fields Table) : Request → Prop
  | query {r : QueryRequest} {t : Table} {w : TableRead} : tables.find r.table = some t →
      MemoryStore.Accepts t r.toScanRequest (some r.keyCondition) w → Accepted tables (.query r)
  | scan {r : ScanRequest} {t : Table} {w : TableRead} : tables.find r.table = some t →
      MemoryStore.Accepts t r none w → Accepted tables (.scan r)

/-- Every store with some tables answers a request, or a failure that was planned for its operation happens. -/
def Answered (tables : Fields Table) (request : Request) : Prop :=
  ∀ s : MemoryStore, s.tables = tables →
    (∃ response, (request.send s).1 = .ok response) ∨
      ∃ e, (request.send s).1 = .error e ∧ s.faults.Plans request.operation e

/-- **A request that is accepted is answered**, unless a failure that was planned happens. -/
theorem Accepted.answered {tables : Fields Table} {request : Request} (h : request.Accepted tables) :
    request.Answered tables := by
  rintro s rfl
  cases h with
  | @query r t w ht h =>
    obtain ⟨response, hread⟩ := h.read { s with faults := (s.faults.note .query).2 } ht (r.forward.getD true)
    simp only [send, Call.map_eq, Store.query, MemoryStore.query, MemoryStore.record_ask, hread]
    exact Faults.answered_or_planned ReadResponse.toWire response
  | @scan r t w ht h =>
    obtain ⟨response, hread⟩ := h.read { s with faults := (s.faults.note .scan).2 } ht true
    simp only [send, Call.map_eq, Store.scan, MemoryStore.scan, MemoryStore.record_ask, hread]
    exact Faults.answered_or_planned ReadResponse.toWire response

end Request

end RecordStore
