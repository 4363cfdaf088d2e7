import RecordStore.Proofs.Collection.Refusing
import RecordStore.Proofs.Store.Rules

/-!
# What the calls of a collection keep

A property of the store is kept by a task of a collection if it is kept by each request that the task sends, whatever
the store answers and wherever it fails. There is a lemma for each kind of task: pages keep what the reads for them keep
(`Collection.keeps_page`), and the other tasks what the operations on keys do, `Store.KeptByGets` and
`Store.KeptByKeys`.

**`Task.keeps_of_kept`** says it of any task.
-/

namespace RecordStore

open Call (Keeps)

/-- Reads under keys lead from states in `P` to such states. -/
structure Store.KeptByGets {σ : Type} [Store σ] (P : σ → Prop) : Prop where
  get : ∀ r : GetRequest, Keeps P (Store.get r) fun _ => True
  batchGet : ∀ r : BatchGetRequest, Keeps P (Store.batchGet r) fun _ => True

/-- All operations on keys lead from states in `P` to such states. -/
structure Store.KeptByKeys {σ : Type} [Store σ] (P : σ → Prop) : Prop extends Store.KeptByGets P where
  put : ∀ r : PutRequest, Keeps P (Store.put r) fun _ => True
  delete : ∀ r : DeleteRequest, Keeps P (Store.delete r) fun _ => True
  batchWrite : ∀ r : BatchWriteRequest, Keeps P (Store.batchWrite r) fun _ => True

variable {σ : Type} [Store σ] {P : σ → Prop}

/-! ## Pages -/

namespace Page

theorem keeps_rounds {what : Selection} {descending : Bool} {cap : Option Nat}
    (h : ∀ start, Keeps P (readPart what descending cap start) fun _ => True) (size : Option Nat) :
    ∀ (n : Nat) (buffer : List Item) (start : Option Key),
      Keeps P (rounds what descending size cap n buffer start) fun _ => True
  | 0, _, _ => Call.keeps_pure trivial
  | n + 1, buffer, start => by
    refine ((h start).mapError _).attempt.bind fun r _ => ?_
    cases r with
    | error cause =>
      dsimp only
      split
      · exact Call.keeps_throw _
      · exact Call.keeps_pure trivial
    | ok part =>
      obtain ⟨items, last⟩ := part
      dsimp only
      split
      · exact Call.keeps_pure trivial
      · exact keeps_rounds h size n _ _
      · exact Call.keeps_pure trivial

theorem keeps_read {what : Selection} (settings : Settings) {paging : Paging}
    (h : ∀ cap start, Keeps P (readPart what paging.descending cap start) fun _ => True) :
    Keeps P (read settings what paging) fun _ => True :=
  (Call.keeps_ofExcept fun _ _ => trivial).bind fun _ _ =>
    Call.keeps_get.bind fun _ _ => keeps_rounds (h _) _ _ _ _

end Page

namespace Collection

variable (c : Collection)

/-- A page keeps what the reads for it keep. -/
theorem keeps_page {suffix : String} {q : PageQuery}
    (h : ∀ what hidden, c.select suffix q = .ok (what, hidden) →
      ∀ cap start, Keeps P (Page.readPart what q.paging.descending cap start) fun _ => True) :
    Keeps P (c.page suffix q) fun _ => True := by
  rw [page_eq]
  refine (Call.keeps_ofExcept (Q := fun selected => c.select suffix q = .ok selected) fun _ h => h).bind
    fun ⟨what, hidden⟩ hselect => ?_
  exact (Page.keeps_read _ (h what hidden hselect)).bind fun _ _ => Call.keeps_pure trivial

/-! ## Reads under keys -/

section

variable (h : Store.KeptByGets P)

include h

theorem keeps_get (suffix id : String) (fields : Option (List String)) :
    Keeps P (c.get suffix id fields) fun _ => True :=
  (Call.keeps_ofExcept fun _ _ => trivial).bind fun _ _ => (Call.keeps_ofExcept fun _ _ => trivial).bind fun _ _ =>
    ((h.get _).mapError _).bind fun _ _ => Call.keeps_pure trivial

theorem keeps_exists (suffix id : String) : Keeps P (c.exists? suffix id) fun _ => True :=
  (c.keeps_get h suffix id _).bind fun _ _ => Call.keeps_pure trivial

theorem keeps_getRounds : ∀ (n : Nat) (batch : KeyBatch) (found : List Record),
    Keeps P (c.getRounds n batch found) fun _ => True
  | 0, _, _ => Call.keeps_pure trivial
  | n + 1, batch, found => by
    refine ((h.batchGet _).mapError _).attempt.bind fun r _ => ?_
    cases r with
    | error cause =>
      dsimp only
      split
      · exact Call.keeps_throw _
      · exact Call.keeps_pure trivial
    | ok response =>
      dsimp only
      split
      · exact keeps_getRounds n _ _
      · exact Call.keeps_pure trivial

theorem keeps_getChunks (projection : Compiled) : ∀ (chunks : List (List String)) (found : List Record),
    Keeps P (c.getChunks projection chunks found) fun _ => True
  | [], _ => Call.keeps_pure trivial
  | ids :: rest, found => by
    refine (c.keeps_getRounds h _ _ _).bind fun ⟨found, failed⟩ _ => ?_
    cases failed with
    | true => exact Call.keeps_pure trivial
    | false => exact keeps_getChunks projection rest found

theorem keeps_batchGet (suffix : String) (ids : List String) (fields : Option (List String)) :
    Keeps P (c.batchGet suffix ids fields) fun _ => True :=
  (Call.keeps_ofExcept fun _ _ => trivial).bind fun _ _ => (Call.keeps_ofExcept fun _ _ => trivial).bind fun _ _ =>
    c.keeps_getChunks h _ _ _

end

/-! ## Writes -/

section

variable (h : Store.KeptByKeys P)

include h

theorem keeps_saving (record : Record) : Keeps P (c.save record) fun _ => True :=
  (Call.keeps_ofExcept fun _ _ => trivial).bind fun _ _ =>
    ((h.put _).mapError _).bind fun _ _ => Call.keeps_pure trivial

theorem keeps_creating (freshId now : String) (data : Json) : Keeps P (c.create freshId now data) fun _ => True :=
  (Call.keeps_ofExcept fun _ _ => trivial).bind fun _ _ =>
    (Call.keeps_ofExcept fun _ _ => trivial).bind fun _ _ => c.keeps_saving h _

theorem keeps_replacing (now : String) (data : Json) : Keeps P (c.replace now data) fun _ => True := by
  refine (Call.keeps_ofExcept fun _ _ => trivial).bind fun record _ => ?_
  cases c.entity.id? record with
  | none => exact Call.keeps_throw _
  | some id => exact (Call.keeps_ofExcept fun _ _ => trivial).bind fun _ _ => c.keeps_saving h _

theorem keeps_updating (id : String) (data : Json) : Keeps P (c.update id data) fun _ => True := by
  refine (Call.keeps_ofExcept fun _ _ => trivial).bind fun _ _ => ?_
  refine (Call.keeps_ofExcept fun _ _ => trivial).bind fun _ _ => ?_
  refine (c.keeps_get h.toKeptByGets "" id none).bind fun found _ => ?_
  cases found with
  | none => exact Call.keeps_throw _
  | some record => exact (Call.keeps_ofExcept fun _ _ => trivial).bind fun _ _ => c.keeps_saving h _

theorem keeps_deleting (id : String) : Keeps P (c.delete id) fun _ => True := by
  refine (Call.keeps_ofExcept fun _ _ => trivial).bind fun _ _ => ?_
  refine (c.keeps_get h.toKeptByGets "" id none).bind fun found _ => ?_
  cases found with
  | none => exact Call.keeps_throw _
  | some record => exact ((h.delete _).mapError _).bind fun _ _ => Call.keeps_pure trivial

theorem keeps_deletingRounds : ∀ (n : Nat) (batch : List WriteEntry),
    Keeps P (c.deleteRounds n batch) fun _ => True
  | 0, [] => Call.keeps_pure trivial
  | _ + 1, [] => Call.keeps_pure trivial
  | 0, _ :: _ => Call.keeps_throw _
  | n + 1, _ :: _ => ((h.batchWrite _).mapError _).bind fun _ _ => keeps_deletingRounds n _

theorem keeps_deletingChunks : ∀ chunks : List (List String), Keeps P (c.deleteChunks chunks) fun _ => True
  | [] => Call.keeps_pure trivial
  | _ :: rest => (c.keeps_deletingRounds h _ _).bind fun _ _ => keeps_deletingChunks rest

end

end Collection

/-! ## Tasks -/

namespace Task

/-- What is behind the aliases of a task; nothing where it needs none. -/
def suffix : Task → String
  | .get suffix _ _ | .exists suffix _ | .batchGet suffix _ _ | .page suffix _ | .queryAll suffix _
  | .indexQueryAll suffix _ => suffix
  | .create _ _ _ | .replace _ _ | .update _ _ | .delete _ | .deleteMany _ => ""

/-- **A task** keeps what the operations on keys and its pages keep. -/
theorem keeps_of_kept {c : Collection} (h : Store.KeptByKeys P) (task : Task)
    (hpage : ∀ q, Keeps P (c.page task.suffix q) fun _ => True) : Keeps P (task.run c) fun _ => True := by
  cases task with
  | create freshId now data => exact (c.keeps_creating h freshId now data).map fun _ _ => trivial
  | replace now data => exact (c.keeps_replacing h now data).map fun _ _ => trivial
  | update id data => exact (c.keeps_updating h id data).map fun _ _ => trivial
  | delete id => exact (c.keeps_deleting h id).map fun _ _ => trivial
  | deleteMany ids =>
    exact (Call.keeps_ofExcept fun _ _ => trivial).bind fun _ _ => c.keeps_deletingChunks h _
  | get suffix id fields => exact (c.keeps_get h.toKeptByGets suffix id fields).map fun _ _ => trivial
  | «exists» suffix id => exact (c.keeps_exists h.toKeptByGets suffix id).map fun _ _ => trivial
  | batchGet suffix ids fields => exact (c.keeps_batchGet h.toKeptByGets suffix ids fields).map fun _ _ => trivial
  | page suffix q => exact (hpage q).map fun _ _ => trivial
  | queryAll suffix q =>
    exact ((hpage (.byKey { q with paging := Collection.unpaged q.paging })).bind
      (B := fun _ => True) fun _ _ => Call.keeps_pure trivial).map fun _ _ => trivial
  | indexQueryAll suffix q =>
    exact ((hpage (.byIndex { q with paging := Collection.unpaged q.paging })).bind
      (B := fun _ => True) fun _ _ => Call.keeps_pure trivial).map fun _ _ => trivial

end Task

end RecordStore
