import RecordStore.Proofs.Memory.Reading
import RecordStore.Proofs.Table.Contents

/-!
# What a store in memory does with one item

A call `Reads` if it leaves the tables as they are, and it is `AllOrNothing` if it does so whenever it fails. Puts and
deletes are all or nothing (`allOrNothing_put`, `allOrNothing_delete`), and if they succeed they have changed their
table and nothing else (`put_ok`, `delete_ok`). A get reads (`reads_get`) and finds what its table has, unless it meets
a planned failure (`get_eq`).
-/

namespace RecordStore

namespace Call

variable {ε ε' α β : Type} {x : Call MemoryStore ε α} {f : α → Call MemoryStore ε β}

/-! ## Calls that change no table -/

/-- A call leaves the tables as they are. -/
def Reads (x : Call MemoryStore ε α) : Prop :=
  ∀ s, (x s).2.tables = s.tables

/-- A call that fails leaves the tables as they are. -/
def AllOrNothing (x : Call MemoryStore ε α) : Prop :=
  ∀ s e, (x s).1 = .error e → (x s).2.tables = s.tables

theorem reads_ofExcept (r : Except ε α) : Reads (.ofExcept r) := fun _ => rfl

theorem allOrNothing_throw (e : ε) : AllOrNothing (throw e : Call MemoryStore ε α) := fun _ _ _ => rfl

/-- What comes after a read may fail if that changes nothing. -/
theorem Reads.bind (h : Reads x) (hf : ∀ a, AllOrNothing (f a)) : AllOrNothing (x >>= f) := by
  intro s e he
  have hs := h s
  rw [bind_eq] at he ⊢
  generalize x s = o at he hs ⊢
  obtain ⟨r, s'⟩ := o
  cases r with
  | error e' => exact hs
  | ok a => exact (hf a s' e he).trans hs

theorem AllOrNothing.mapError (h : AllOrNothing x) (g : ε → ε') : AllOrNothing (x.mapError g) := by
  intro s e he
  rw [mapError_eq] at he ⊢
  cases hx : (x s).1 with
  | error e' => exact h s e' hx
  | ok a =>
    rw [hx] at he
    cases he

/-- After the last thing that can fail comes an answer. -/
theorem AllOrNothing.bind_pure (h : AllOrNothing x) (g : α → β) : AllOrNothing (x >>= fun a => pure (g a)) := by
  intro s e he
  have hs := h s
  rw [bind_eq] at he ⊢
  generalize x s = o at he hs ⊢
  obtain ⟨r, s'⟩ := o
  cases r with
  | error e' => exact hs e' rfl
  | ok a => cases he

end Call

namespace MemoryStore

open Call (Reads AllOrNothing)

variable {s s' : MemoryStore} {t : Table} {name : String}

/-! ## Counted calls -/

theorem reads_record (operation : Operation) : Reads (record operation) := fun _ => rfl

theorem note_of_no_failures {faults : Faults} (h : faults.failures = []) (operation : Operation) :
    (faults.note operation).1 = .ok () := by
  simp only [Faults.note, h, List.map_nil, List.find?_nil]

theorem failures_of_no_failures {faults : Faults} (h : faults.failures = []) (operation : Operation) :
    (faults.note operation).2.failures = [] := by
  simp only [Faults.note, h, List.map_nil, List.find?_nil]

/-! ## Changes of a table -/

variable {α : Type} {f : Table → Except TableError (α × Table)} {a : α}

/-- A change that is refused leaves the store as it is. -/
theorem allOrNothing_change (name : String) (f : Table → Except TableError (α × Table)) :
    AllOrNothing (change name f) := by
  intro s e he
  unfold change at he ⊢
  cases ht : s.table? name with
  | error e' => rfl
  | ok t =>
    rw [ht] at he
    dsimp only at he ⊢
    cases hf : ofTable (f t) with
    | error e' => rfl
    | ok r =>
      rw [hf] at he
      cases he

/-- A change that is made is one of its table. -/
theorem change_ok (h : change name f s = (.ok a, s')) :
    ∃ t t', s.tables.find name = some t ∧ f t = .ok (a, t') ∧ s' = s.setTable name t' := by
  unfold change table? at h
  cases ht : s.tables.find name with
  | none =>
    rw [ht] at h
    cases (Prod.mk.inj h).1
  | some t =>
    rw [ht] at h
    dsimp only at h
    cases hf : f t with
    | error e' =>
      rw [hf] at h
      cases (Prod.mk.inj h).1
    | ok r =>
      obtain ⟨b, t'⟩ := r
      rw [hf] at h
      obtain ⟨hb, hs⟩ := Prod.mk.inj h
      cases hb
      exact ⟨t, t', rfl, hf, hs.symm⟩

theorem change_eq {t' : Table} (ht : s.tables.find name = some t) (hf : f t = .ok (a, t')) :
    change name f s = (.ok a, s.setTable name t') := by
  simp only [change, table?, ht, hf, ofTable]
  rfl

/-- A counted change that succeeds has changed its table. -/
theorem counted_ok {operation : Operation} {β : Type} {b b' : β}
    (h : (do record operation; let _ ← change name f; return b : Action β) s = (.ok b', s')) :
    ∃ t a t', s.tables.find name = some t ∧ f t = .ok (a, t') ∧ s'.tables = Fields.put name t' s.tables := by
  obtain ⟨u, s₁, hr, h⟩ := Call.bind_ok h
  obtain ⟨a, s₂, hc, h⟩ := Call.bind_ok h
  obtain ⟨t, t', ht, hf, rfl⟩ := change_ok hc
  rw [record_eq] at hr
  obtain ⟨-, rfl⟩ := Prod.mk.inj hr
  obtain ⟨-, rfl⟩ := Prod.mk.inj h
  exact ⟨t, a, t', ht, hf, rfl⟩

/-! ## Puts and deletes -/

theorem allOrNothing_put (r : PutRequest) : AllOrNothing (put r) :=
  (reads_record _).bind fun _ => (allOrNothing_change _ _).bind_pure _

/-- A put that succeeds is one into its table. -/
theorem put_ok {r : PutRequest} {response : WriteResponse} (h : put r s = (.ok response, s')) :
    ∃ t old t', s.tables.find r.table = some t ∧ t.put r.item = .ok (old, t') ∧
      s'.tables = Fields.put r.table t' s.tables :=
  counted_ok h

/-- Without a failure to come, a delete that its table does is done. -/
theorem delete_eq {r : DeleteRequest} {old : Option Item} {t' : Table} (hf : s.faults.failures = [])
    (ht : s.tables.find r.table = some t) (hd : t.delete r.key = .ok (old, t')) :
    (delete r s).1 = .ok {} ∧ (delete r s).2.tables = Fields.put r.table t' s.tables := by
  have hrecord : (record .deleteItem s).1 = .ok () := note_of_no_failures hf _
  have hchange : change r.table (·.delete r.key) (record .deleteItem s).2 =
      (.ok old, (record .deleteItem s).2.setTable r.table t') := change_eq ht hd
  rw [delete, Call.bind_of_ok hrecord, Call.bind_of_ok (congrArg Prod.fst hchange), hchange]
  exact ⟨rfl, rfl⟩

theorem allOrNothing_delete (r : DeleteRequest) : AllOrNothing (delete r) :=
  (reads_record _).bind fun _ => (allOrNothing_change _ _).bind_pure _

/-- A delete that succeeds is one from its table. -/
theorem delete_ok {r : DeleteRequest} {response : WriteResponse} (h : delete r s = (.ok response, s')) :
    ∃ t old t', s.tables.find r.table = some t ∧ t.delete r.key = .ok (old, t') ∧
      s'.tables = Fields.put r.table t' s.tables :=
  counted_ok h

/-! ## Gets -/

theorem reads_get (r : GetRequest) : Reads (get r) := by
  intro s
  rw [get, record_ask]

/-- A get is a planned failure or what its table answers, of which its projection keeps some. -/
theorem get_answer {r : GetRequest} {projection : Option (List Path)}
    (hp : parseOptional Path.parseList r.projection = .ok projection) (ht : s.tables.find r.table = some t) :
    (get r s).1 = (do
      (s.faults.note .getItem).1
      let found ← ofTable (t.get r.key)
      .ok { item := found.map (projected r.names projection) }) := by
  have hanswer : ∀ s' : MemoryStore, s'.tables = s.tables → s'.table? r.table = .ok t := by
    intro s' hs
    rw [table?, hs, ht]
  rw [get, record_ask]
  refine bind_congr fun _ => ?_
  rw [hp, hanswer { s with faults := (s.faults.note .getItem).2 } rfl]
  rfl

/-- The same where the table has an answer. -/
theorem get_projected {r : GetRequest} {projection : Option (List Path)}
    (hp : parseOptional Path.parseList r.projection = .ok projection) (ht : s.tables.find r.table = some t)
    {found : Option Item} (hf : t.get r.key = .ok found) :
    (get r s).1 =
      (s.faults.note .getItem).1 >>= fun _ => .ok { item := found.map (projected r.names projection) } := by
  rw [get_answer hp ht, hf]
  rfl

/-- A get without a projection is a planned failure or what its table has. -/
theorem get_eq {r : GetRequest} (hp : r.projection = none) (ht : s.tables.find r.table = some t) {found : Option Item}
    (hf : t.get r.key = .ok found) :
    (get r s).1 = (s.faults.note .getItem).1 >>= fun _ => .ok { item := found } := by
  rw [get_projected (by rw [hp]; rfl) ht hf]
  cases found <;> rfl

end MemoryStore

end RecordStore
