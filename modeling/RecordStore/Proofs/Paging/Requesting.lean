import RecordStore.Proofs.Memory.Accepting
import RecordStore.Proofs.Paging.Filling
import RecordStore.Store.Recorded

/-!
# What pages ask of a store

The requests for one page differ in their start only (`Page.sent`). The first one starts where the page does, and each
later one after the last key of the answer before. **`Page.rounds_asks`**: if the page starts at a key that has a
position, then so do all of them, since the last key of an answer is that of an item; and what fails was planned to.

`Recorded.Sees` says that a computation does the same on a store that keeps a record of its requests.
-/

namespace RecordStore

/-! ## Keeping a record -/

namespace Recorded

variable {σ ε ε' α β : Type}

/-- A computation comes to the same on a store whether or not a record is kept. -/
def Sees (x : Call (Recorded σ) ε α) (y : Call σ ε α) : Prop :=
  ∀ st : Recorded σ, ((x st).1, (x st).2.store) = y st.store

theorem sees_ofExcept (r : Except ε α) : Sees (.ofExcept r : Call (Recorded σ) ε α) (.ofExcept r) := fun _ => rfl

theorem sees_pass (request : Request) (call : Call σ StoreError α) : Sees (pass request call) call := fun _ => rfl

variable {x : Call (Recorded σ) ε α} {y : Call σ ε α}

theorem Sees.bind (h : Sees x y) {f : α → Call (Recorded σ) ε β} {g : α → Call σ ε β} (hf : ∀ a, Sees (f a) (g a)) :
    Sees (x >>= f) (y >>= g) := by
  intro st
  rw [Call.bind_eq, Call.bind_eq, ← h st]
  rcases x st with ⟨_ | a, st'⟩
  · rfl
  · exact hf a st'

theorem Sees.map (h : Sees x y) (f : α → β) : Sees (f <$> x) (f <$> y) := by
  intro st
  rw [Call.map_eq, Call.map_eq, ← h st]

theorem Sees.mapError (h : Sees x y) (f : ε → ε') : Sees (x.mapError f) (y.mapError f) := by
  intro st
  rw [Call.mapError_eq, Call.mapError_eq, ← h st]

theorem Sees.attempt (h : Sees x y) : Sees x.attempt y.attempt := by
  intro st
  rw [Call.attempt_eq, Call.attempt_eq, ← h st]

end Recorded

namespace Page

open Recorded (Sees sees_ofExcept sees_pass)

variable {what : Selection} {descending : Bool} {size cap : Option Nat} {start : Option Key}

/-- The request for a part of a page, as it reaches the store. -/
def sent (what : Selection) (descending : Bool) (cap : Option Nat) (start : Option Key) : Request :=
  match what.kind with
  | .query => .query
      { request what cap start with
        keyCondition := what.expressions.keyCondition
        forward := if descending then some false else none }
  | .scan => .scan (request what cap start)

section Recording

variable {σ : Type} [Store σ]

theorem sees_readPart (what : Selection) (descending : Bool) (cap : Option Nat) (start : Option Key) :
    Sees (readPart what descending cap start : Call (Recorded σ) _ _) (readPart what descending cap start) := by
  unfold readPart
  cases what.kind
  · exact (sees_pass _ _).map _
  · exact (sees_pass _ _).map _

/-- A read leaves its request on the record. -/
theorem requests_readPart (st : Recorded σ) :
    (readPart what descending cap start st).2.requests = sent what descending cap start :: st.requests := by
  unfold readPart sent
  cases what.kind <;> dsimp only <;> rw [Call.map_eq] <;> rfl

theorem sees_rounds (what : Selection) (descending : Bool) (size cap : Option Nat) :
    ∀ (n : Nat) (buffer : List Item) (start : Option Key),
      Sees (rounds what descending size cap n buffer start : Call (Recorded σ) _ _)
        (rounds what descending size cap n buffer start)
  | 0, _, _ => sees_ofExcept _
  | n + 1, buffer, start => by
    refine ((sees_readPart what descending cap start).mapError _).attempt.bind fun r => ?_
    cases r with
    | error e =>
      dsimp only
      split <;> exact sees_ofExcept _
    | ok r =>
      obtain ⟨items, last⟩ := r
      dsimp only
      cases size.filter fun size => size ≤ (buffer ++ items).length with
      | some size => exact sees_ofExcept _
      | none =>
        cases last with
        | none => exact sees_ofExcept _
        | some key => exact sees_rounds what descending size cap n _ _

/-- **A page is the same** whether or not a record is kept. -/
theorem sees_read (settings : Settings) (what : Selection) (paging : Paging) :
    Sees (read settings what paging : Call (Recorded σ) _ _) (read settings what paging) := by
  refine (sees_ofExcept _).bind fun start st => ?_
  rw [Call.bind_eq, Call.bind_eq]
  exact sees_rounds what paging.descending _ _ _ [] start st

end Recording

/-! ## Reads that follow on one another -/

variable {readOrder : List (Option KeyField)} {s : MemoryStore} {st : Recorded MemoryStore} {t : Table} {w : TableRead}

/--
What a store in memory comes to by the reads for a page: all of them start at keys that stand for positions, the tables
stay as they were, and the failures that are left were planned.
-/
structure Asked (what : Selection) (descending : Bool) (cap : Option Nat) (readOrder : List (Option KeyField))
    (s : MemoryStore) (st : Recorded MemoryStore) : Prop where
  requests : ∀ request ∈ st.requests, ∃ start : Option Key, (∀ key ∈ start, Table.Stands readOrder key) ∧
    request = sent what descending cap start
  tables : st.store.tables = s.tables
  plans : ∀ operation e, st.store.faults.Plans operation e → s.faults.Plans operation e

/-- **One more read** keeps to this. It leads to another key that stands for a position, or fails by plan. -/
theorem Asked.readPart (h : Asked what descending cap (t.shape.readOrder w.index) s st)
    (hr : Readable what descending t w) (ht : s.tables.find what.table = some t) (hcap : ∀ n ∈ cap, 0 < n)
    (hstands : ∀ key ∈ start, Table.Stands (t.shape.readOrder w.index) key)
    {r : Except StoreError (List Item × Option Key)} {st' : Recorded MemoryStore}
    (hread : Page.readPart what descending cap start st = (r, st')) :
    Asked what descending cap (t.shape.readOrder w.index) s st' ∧
      match r with
      | .ok (_, last) => ∀ key ∈ last, Table.Stands (t.shape.readOrder w.index) key
      | .error e => s.faults.Plans what.kind.operation e := by
  obtain ⟨items, hopens, -⟩ := hr.sound.opens hr.partition hstands
  have ht' : st.store.tables.find what.table = some t := by rw [h.tables]; exact ht
  obtain ⟨part, hpart, hpartRead⟩ := exists_part hr ht' hcap hopens
  have hsees := (sees_readPart what descending cap start st).trans hpartRead
  have hrequests := @requests_readPart what descending cap start _ _ st
  rw [hread] at hsees hrequests
  obtain ⟨hfst, hstore⟩ := Prod.mk.inj hsees
  refine ⟨⟨?_, ?_, ?_⟩, ?_⟩
  · rw [hrequests]
    exact List.forall_mem_cons.2 ⟨⟨start, hstands, rfl⟩, h.requests⟩
  · rw [hstore, ← h.tables]
  · rw [hstore]
    exact fun operation e hplans => h.plans operation e hplans.of_note
  · cases hnote : (st.store.faults.note what.kind.operation).1 with
    | error e =>
      rw [hnote] at hfst
      subst hfst
      exact h.plans _ _ (Faults.plans_of_note hnote)
    | ok _ =>
      rw [hnote] at hfst
      subst hfst
      exact hpart.stands

/-- **All reads for a page** keep to this, and if there is no page, a failure that was planned has happened. -/
theorem Asked.rounds (hr : Readable what descending t w) (ht : s.tables.find what.table = some t)
    (hcap : ∀ n ∈ cap, 0 < n) :
    ∀ {n : Nat} {buffer : List Item} {start : Option Key} {st st' : Recorded MemoryStore} {r : Except AccessError Page},
      Asked what descending cap (t.shape.readOrder w.index) s st →
      (∀ key ∈ start, Table.Stands (t.shape.readOrder w.index) key) →
      Page.rounds what descending size cap n buffer start st = (r, st') →
      Asked what descending cap (t.shape.readOrder w.index) s st' ∧
        ∀ e, r = .error e → ∃ cause, e = .store cause ∧ s.faults.Plans what.kind.operation cause
  | 0, _, _, _, _, _, h, _, hrounds => by
    cases hrounds
    exact ⟨h, nofun⟩
  | n + 1, buffer, start, st, st', r, h, hstands, hrounds => by
    generalize hread : Page.readPart what descending cap start st = o
    obtain ⟨_ | ⟨items, last⟩, st₁⟩ := o
    · -- a read that fails ends the page, and is its error if nothing was read before
      rename_i e
      obtain ⟨hasked, hplans⟩ := h.readPart hr ht hcap hstands hread
      rw [rounds_of_error hread] at hrounds
      split at hrounds
      · cases hrounds
        refine ⟨hasked, ?_⟩
        rintro _ ⟨⟩
        exact ⟨e, rfl, hplans⟩
      · cases hrounds
        exact ⟨hasked, nofun⟩
    · obtain ⟨hasked, hnext⟩ := h.readPart hr ht hcap hstands hread
      rw [rounds_of_ok hread] at hrounds
      split at hrounds
      · cases hrounds
        exact ⟨hasked, nofun⟩
      · exact Asked.rounds hr ht hcap hasked hnext hrounds
      · cases hrounds
        exact ⟨hasked, nofun⟩

/-- **A page** that starts at a key that stands for a position is asked for from such keys only, and fails by plan. -/
theorem read_asked (hr : Readable what descending t w) {settings : Settings} {paging : Paging}
    (hmin : 0 < settings.minCap) (hsize : ∀ n ∈ paging.pageSize, n + 1 < Numeral.natBound)
    (hd : paging.descending = descending) (ht : s.tables.find what.table = some t)
    (hstart : Page.start settings paging.cursor = .ok start)
    (hstands : ∀ key ∈ start, Table.Stands (t.shape.readOrder w.index) key) {r : Except AccessError Page}
    (hread : Page.read settings what paging (⟨s, []⟩ : Recorded MemoryStore) = (r, st)) :
    Asked what descending (capOf settings paging) (t.shape.readOrder w.index) s st ∧
      ∀ e, r = .error e → ∃ cause, e = .store cause ∧ s.faults.Plans what.kind.operation cause := by
  subst hd
  have hnothing : Asked what paging.descending (capOf settings paging) (t.shape.readOrder w.index) s ⟨s, []⟩ :=
    ⟨nofun, rfl, fun _ _ h => h⟩
  rw [read_eq_rounds hstart] at hread
  exact Asked.rounds hr ht (capOf_pos hmin hsize) hnothing hstands hread

end Page

end RecordStore
