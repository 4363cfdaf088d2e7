import Mathlib.Data.List.Nodup
import RecordStore.Proofs.Memory.Accepting

/-!
# When planned failures happen

In a history (`Faults.Event`) failures are planned and operations are called, in any order. A failure is aimed at one
call of its operation, its target, which is counted among all calls of the operation (`Faults.Planned`). Of the failures
that have not happened, a call takes the one planned first among those of its operation whose target is reached
(`Faults.pending`, `Faults.next`). The countdowns of a store come to just that: `Faults.failures_after`,
`Faults.note_after`.

* **`Faults.once`**: a failure that has happened does not happen again;
* **`Faults.happened_or_waits`**: one that has not happened is to come, and each call of its operation from its target
  on has taken one of those that were to come when it was planned;
* **`Faults.own_after`**: what is done with other operations has no part in it;
* **`Faults.failures_on_time`** puts these together, and says that failures with targets of their own are never late.
-/

namespace RecordStore.Faults

/-! ## Histories -/

/-- What is done with planned failures: one is planned for the `n`-th call of an operation from now on, or an operation
is called. -/
inductive Event where
  | plan (operation : Operation) (n : Nat) (code : ErrorCode)
  | call (operation : Operation)
deriving DecidableEq, Repr

/-- The operation that an event is about. -/
def Event.operation : Event → Operation
  | .plan operation _ _ | .call operation => operation

/-- The faults after a history, in which the last event comes first. -/
def after : List Event → Faults
  | [] => {}
  | .plan operation n code :: earlier => (after earlier).failAt operation n code
  | .call operation :: earlier => ((after earlier).note operation).2

/-- A failure that was planned: after how many events, for which operation, at which of all its calls, and its code. -/
structure Planned where
  moment : Nat
  operation : Operation
  target : Nat
  code : ErrorCode
deriving DecidableEq, Repr

namespace Planned

/-- The failure that is planned after a history, for the `n`-th call of an operation from then on. -/
def aimed (earlier : List Event) (operation : Operation) (n : Nat) (code : ErrorCode) : Planned :=
  ⟨earlier.length, operation, earlier.count (.call operation) + max n 1, code⟩

/-- Whether the next call of an operation after a history is the target of the failure or comes behind it. -/
def isReached (p : Planned) (operation : Operation) (h : List Event) : Bool :=
  p.operation = operation && p.target ≤ h.count (.call operation) + 1

/-- The failure as a store holds it after a history. -/
def coming (h : List Event) (p : Planned) : ComingFailure :=
  ⟨p.operation, p.target - h.count (.call p.operation), p.code⟩

/-- The error that the failure makes. -/
def error (p : Planned) : StoreError :=
  ⟨p.code, "injected failure on " ++ p.operation.name, none⟩

end Planned

/-- The failures planned in a history, in their order. -/
def plans : List Event → List Planned
  | [] => []
  | .plan operation n code :: earlier => plans earlier ++ [.aimed earlier operation n code]
  | .call _ :: earlier => plans earlier

/-- The failures that have not happened in a history, in the order in which they were planned. -/
def pending : List Event → List Planned
  | [] => []
  | .plan operation n code :: earlier => pending earlier ++ [.aimed earlier operation n code]
  | .call operation :: earlier => (pending earlier).eraseP (·.isReached operation earlier)

/-- The failure that the next call of an operation makes happen. -/
def next (h : List Event) (operation : Operation) : Option Planned :=
  (pending h).find? (·.isReached operation h)

/-- A failure has made a call of a history fail. -/
def Happened (h : List Event) (p : Planned) : Prop :=
  ∃ earlier, .call p.operation :: earlier <:+ h ∧ next earlier p.operation = some p

variable {h : List Event} {operation : Operation} {p : Planned}

theorem Planned.isReached_iff :
    p.isReached operation h = true ↔ p.operation = operation ∧ p.target ≤ h.count (.call operation) + 1 := by
  rw [isReached, Bool.and_eq_true, decide_eq_true_eq, decide_eq_true_eq]

/-! ## What the faults of a store come to -/

theorem note_failures (faults : Faults) (operation : Operation) :
    (faults.note operation).2.failures =
      (faults.failures.map fun f => f.advance operation).eraseP fun f => f.isDue operation := by
  unfold note
  dsimp only
  split
  · rfl
  · rename_i hnone
    exact (List.eraseP_of_forall_not (List.find?_eq_none.1 hnone)).symm

theorem count_call (h : List Event) (called operation : Operation) :
    (Event.call called :: h).count (.call operation) =
      h.count (.call operation) + if called = operation then 1 else 0 := by
  rw [List.count_cons]
  simp only [beq_iff_eq, Event.call.injEq]

theorem Planned.advance_coming (p : Planned) (h : List Event) (operation : Operation) :
    (p.coming h).advance operation = p.coming (.call operation :: h) := by
  unfold ComingFailure.advance coming
  rw [count_call]
  by_cases hp : p.operation = operation
  · rw [if_pos hp, if_pos hp.symm, Nat.sub_add_eq]
  · rw [if_neg hp, if_neg (Ne.symm hp), Nat.add_zero]

theorem Planned.isDue_coming (p : Planned) (h : List Event) (operation : Operation) :
    (p.coming (.call operation :: h)).isDue operation = p.isReached operation h := by
  unfold ComingFailure.isDue coming isReached
  by_cases hp : p.operation = operation
  · simp only [hp, List.count_cons_self, Nat.sub_eq_zero_iff_le]
  · rw [decide_eq_false hp, Bool.false_and, Bool.false_and]

theorem advance_pending (h : List Event) (operation : Operation) :
    ((pending h).map (Planned.coming h)).map (·.advance operation) =
      (pending h).map (Planned.coming (.call operation :: h)) := by
  rw [List.map_map]
  exact List.map_congr_left fun p _ => p.advance_coming h operation

theorem isDue_comp_coming (h : List Event) (operation : Operation) :
    (fun f : ComingFailure => f.isDue operation) ∘ Planned.coming (.call operation :: h) =
      fun p => p.isReached operation h :=
  funext fun p => p.isDue_coming h operation

/-- **The countdowns of a store**: it holds the failures that have not happened, each with the calls that are left. -/
theorem failures_after : ∀ h : List Event, (after h).failures = (pending h).map (Planned.coming h)
  | [] => rfl
  | .plan operation n code :: h => by
    have hcoming (p : Planned) : p.coming (.plan operation n code :: h) = p.coming h := by
      rw [Planned.coming, Planned.coming, List.count_cons_of_ne (by simp)]
    have hnew : (Planned.aimed h operation n code).coming h = ⟨operation, max n 1, code⟩ := by
      rw [Planned.coming, Planned.aimed, Nat.add_sub_cancel_left]
    rw [after, failAt, failures_after h, pending, funext hcoming, List.map_append, List.map_singleton, hnew]
  | .call operation :: h => by
    rw [after, note_failures, failures_after h, advance_pending, List.eraseP_map, isDue_comp_coming, pending]

/-- **The answers of a store**: a call fails by the failure that it makes happen, if there is one. -/
theorem note_after (h : List Event) (operation : Operation) :
    ((after h).note operation).1 = match next h operation with | some p => .error p.error | none => .ok () := by
  rw [note, failures_after h, advance_pending]
  dsimp only
  rw [List.find?_map, isDue_comp_coming, next]
  cases hnext : (pending h).find? (·.isReached operation h) <;> rfl

/-! ## One call -/

theorem next_eq_some (hp : next h operation = some p) :
    p ∈ pending h ∧ p.operation = operation ∧ p.target ≤ h.count (.call operation) + 1 := by
  have hreached := List.find?_some hp
  exact ⟨List.mem_of_find?_eq_some hp, Planned.isReached_iff.1 hreached⟩

/-- Where the target of a failure is reached, that failure or another one happens. -/
theorem exists_next (hp : p ∈ pending h) (htarget : p.target ≤ h.count (.call p.operation) + 1) :
    ∃ q, next h p.operation = some q :=
  Option.isSome_iff_exists.1 (List.find?_isSome.2 ⟨p, hp, Planned.isReached_iff.2 ⟨rfl, htarget⟩⟩)

/-- A call takes the failure that it makes happen from its place among those that have not happened. -/
theorem pending_call (h : List Event) (operation : Operation) :
    (next h operation = none ∧ pending (.call operation :: h) = pending h) ∨
      ∃ front p behind, next h operation = some p ∧ pending h = front ++ p :: behind ∧
        pending (.call operation :: h) = front ++ behind := by
  cases hnext : next h operation with
  | none => exact .inl ⟨rfl, List.eraseP_of_forall_not (List.find?_eq_none.1 hnext)⟩
  | some p =>
    obtain ⟨hreached, front, behind, hpending, hfront⟩ := List.find?_eq_some_iff_append.1 hnext
    refine .inr ⟨front, p, behind, rfl, hpending, ?_⟩
    rw [pending, hpending, List.eraseP_append_right _ (by simpa using hfront)]
    exact congrArg (front ++ ·) (List.eraseP_cons_of_pos hreached)

theorem pending_sublist : ∀ h : List Event, (pending h).Sublist (plans h)
  | [] => List.Sublist.refl []
  | .plan _ _ _ :: h => (pending_sublist h).append (List.Sublist.refl _)
  | .call _ :: h => List.eraseP_sublist.trans (pending_sublist h)

theorem moment_lt : ∀ {h : List Event}, ∀ p ∈ plans h, p.moment < h.length
  | .plan operation n code :: h, p, hp => by
    rw [List.length_cons]
    rcases List.mem_append.1 hp with hp | hp
    · exact Nat.lt_succ_of_lt (moment_lt p hp)
    · rw [List.mem_singleton.1 hp]
      exact Nat.lt_succ_self h.length
  | .call _ :: h, p, hp => Nat.lt_succ_of_lt (moment_lt (h := h) p hp)

/-- No failure is planned twice. -/
theorem nodup_plans : ∀ h : List Event, (plans h).Nodup
  | [] => List.nodup_nil
  | .plan operation n code :: h => by
    refine (nodup_plans h).append (List.nodup_singleton _) (List.disjoint_singleton.2 fun hnew => ?_)
    exact absurd (moment_lt _ hnew) (Nat.lt_irrefl h.length)
  | .call _ :: h => nodup_plans h

theorem nodup_pending (h : List Event) : (pending h).Nodup := (nodup_plans h).sublist (pending_sublist h)

/-- A failure that happens is no longer to come. -/
theorem notMem_of_next (hp : next h operation = some p) : p ∉ pending (.call operation :: h) := by
  rcases pending_call h operation with ⟨hnone, -⟩ | ⟨front, q, behind, hq, hpending, hafter⟩
  · rw [hnone] at hp
    cases hp
  · obtain rfl : q = p := Option.some.inj (hq.symm.trans hp)
    have hnodup := nodup_pending h
    rw [hpending] at hnodup
    rw [hafter]
    exact (List.nodup_cons.1 (List.nodup_middle.1 hnodup)).1

/-! ## Whole histories -/

theorem happened_cons {event : Event} : Happened (event :: h) p ↔
    (event = .call p.operation ∧ next h p.operation = some p) ∨ Happened h p := by
  constructor
  · rintro ⟨earlier, hsuffix, hnext⟩
    rcases List.suffix_cons_iff.1 hsuffix with heq | hsuffix
    · obtain ⟨rfl, rfl⟩ := List.cons.inj heq
      exact .inl ⟨rfl, hnext⟩
    · exact .inr ⟨earlier, hsuffix, hnext⟩
  · rintro (⟨rfl, hnext⟩ | ⟨earlier, hsuffix, hnext⟩)
    · exact ⟨h, List.suffix_refl _, hnext⟩
    · exact ⟨earlier, hsuffix.trans (List.suffix_cons event h), hnext⟩

theorem Happened.mem_plans : ∀ {h : List Event}, Happened h p → p ∈ plans h
  | [], ⟨_, hsuffix, _⟩ => absurd (List.eq_nil_of_suffix_nil hsuffix) (List.cons_ne_nil _ _)
  | .plan _ _ _ :: h, hp => by
    rcases happened_cons.1 hp with ⟨hcall, -⟩ | hp
    · cases hcall
    · exact List.mem_append_left _ hp.mem_plans
  | .call operation :: h, hp => by
    rcases happened_cons.1 hp with ⟨-, hnext⟩ | hp
    · exact (pending_sublist h).subset (next_eq_some hnext).1
    · exact Happened.mem_plans (h := h) hp

/-- A failure that has happened is not to come. -/
theorem Happened.notMem_pending : ∀ {h : List Event}, Happened h p → p ∉ pending h
  | [], _ => List.not_mem_nil
  | .plan operation n code :: h, hp => by
    rcases happened_cons.1 hp with ⟨hcall, -⟩ | hp
    · cases hcall
    · rintro hmem
      rcases List.mem_append.1 hmem with hmem | hnew
      · exact hp.notMem_pending hmem
      · have hmoment := moment_lt p hp.mem_plans
        rw [List.mem_singleton.1 hnew] at hmoment
        exact Nat.lt_irrefl _ hmoment
  | .call operation :: h, hp => by
    rcases happened_cons.1 hp with ⟨hcall, hnext⟩ | hp
    · rw [hcall]
      exact notMem_of_next hnext
    · exact fun hmem => Happened.notMem_pending (h := h) hp (List.mem_of_mem_eraseP hmem)

/-- **Once**: a failure that happens has not happened before. -/
theorem once (hp : next h operation = some p) : ¬ Happened h p := fun hbefore =>
  hbefore.notMem_pending (next_eq_some hp).1

/-- A failure that was planned has happened or is to come. -/
theorem happened_or_pending : ∀ {h : List Event}, p ∈ plans h → Happened h p ∨ p ∈ pending h
  | .plan operation n code :: h, hp => by
    rcases List.mem_append.1 hp with hp | hnew
    · exact (happened_or_pending hp).imp (fun hp => happened_cons.2 (.inr hp)) (List.mem_append_left _)
    · exact .inr (List.mem_append_right _ hnew)
  | .call operation :: h, hp => by
    rcases happened_or_pending (h := h) hp with hp | hmem
    · exact .inl (happened_cons.2 (.inr hp))
    rcases pending_call h operation with ⟨-, hafter⟩ | ⟨front, q, behind, hq, hpending, hafter⟩
    · exact .inr (hafter ▸ hmem)
    by_cases hpq : p = q
    · subst hpq
      obtain rfl := (next_eq_some hq).2.1
      exact .inl (happened_cons.2 (.inl ⟨rfl, hq⟩))
    · rw [hpending, List.mem_append, List.mem_cons] at hmem
      rw [hafter, List.mem_append]
      exact .inr (hmem.imp_right fun hmem => hmem.resolve_left hpq)

/-- A failure happens no earlier than at its target. -/
theorem Happened.target_le (hp : Happened h p) : p.target ≤ h.count (.call p.operation) := by
  obtain ⟨earlier, hsuffix, hnext⟩ := hp
  have hcount := hsuffix.count_le (.call p.operation)
  rw [List.count_cons_self] at hcount
  exact Nat.le_trans (next_eq_some hnext).2.2 hcount

/-! ## Failures that wait -/

/-- How many of some failures are of an operation. -/
def ofOperation (operation : Operation) (ps : List Planned) : Nat :=
  ps.countP (·.operation = operation)

/-- A failure is to come; of its operation at most `k` others come before it, and each call since its target has taken
one of these. -/
def Waits (h : List Event) (p : Planned) (k : Nat) : Prop :=
  ∃ front behind, pending h = front ++ p :: behind ∧ ofOperation p.operation front ≤ k ∧
    h.count (.call p.operation) + ofOperation p.operation front < p.target + k

variable {k : Nat}

theorem waits_aimed (h : List Event) (operation : Operation) (n : Nat) (code : ErrorCode) :
    Waits (.plan operation n code :: h) (.aimed h operation n code) (ofOperation operation (pending h)) := by
  refine ⟨pending h, [], rfl, Nat.le_refl _, ?_⟩
  have hcount : (Event.plan operation n code :: h).count (.call operation) = h.count (.call operation) :=
    List.count_cons_of_ne (by simp)
  simp only [Planned.aimed, hcount]
  omega

theorem Waits.plan (hp : Waits h p k) (operation : Operation) (n : Nat) (code : ErrorCode) :
    Waits (.plan operation n code :: h) p k := by
  obtain ⟨front, behind, hpending, hk, hlate⟩ := hp
  refine ⟨front, behind ++ [.aimed h operation n code], ?_, hk, ?_⟩
  · rw [pending, hpending, List.append_assoc, List.cons_append]
  · rw [List.count_cons_of_ne (by simp)]
    exact hlate

theorem ofOperation_middle (front behind : List Planned) (q : Planned) (operation : Operation) :
    ofOperation operation (front ++ q :: behind) =
      ofOperation operation (front ++ behind) + if q.operation = operation then 1 else 0 := by
  simp only [ofOperation, List.countP_append, List.countP_cons, decide_eq_true_eq, Nat.add_assoc]

/-- With each call, a failure that waits happens or goes on waiting. -/
theorem Waits.call (hp : Waits h p k) (operation : Operation) :
    Happened (.call operation :: h) p ∨ Waits (.call operation :: h) p k := by
  obtain ⟨front, behind, hpending, hk, hlate⟩ := hp
  by_cases hfront : ∃ q ∈ front, q.isReached operation h = true
  · -- a failure before it happens, which makes up for the call if it is of its operation
    obtain ⟨q, hq, hreached⟩ := hfront
    obtain ⟨r, before, after, -, hr, rfl, herase⟩ :=
      List.exists_of_eraseP (p := fun q : Planned => q.isReached operation h) hq hreached
    rw [ofOperation_middle, (Planned.isReached_iff.1 hr).1] at hk hlate
    refine .inr ⟨before ++ after, behind, ?_, by omega, ?_⟩
    · rw [pending, hpending, ← herase]
      exact List.eraseP_append_left (p := fun q : Planned => q.isReached operation h) hreached _ hq
    · rw [count_call]
      omega
  have hfront : ∀ q ∈ front, ¬ q.isReached operation h = true := fun q hq hreached => hfront ⟨q, hq, hreached⟩
  by_cases hreached : p.isReached operation h = true
  · -- it is the first whose target is reached
    have hnext : next h operation = some p :=
      List.find?_eq_some_iff_append.2 ⟨hreached, front, behind, hpending, by simpa using hfront⟩
    obtain rfl := (next_eq_some hnext).2.1
    exact .inl (happened_cons.2 (.inl ⟨rfl, hnext⟩))
  · -- the call is of another operation, or it comes before the target
    refine .inr ⟨front, behind.eraseP (·.isReached operation h), ?_, hk, ?_⟩
    · rw [pending, hpending, List.eraseP_append_right _ hfront]
      exact congrArg (front ++ ·) (List.eraseP_cons_of_neg hreached)
    · rw [count_call]
      split
      · rename_i hoperation
        have htarget : ¬ p.target ≤ h.count (.call p.operation) + 1 := fun htarget =>
          hreached (Planned.isReached_iff.2 ⟨hoperation.symm, hoperation ▸ htarget⟩)
        omega
      · exact hlate

/-- **A failure has happened or waits** for no more than the failures of its operation that were to come before it. -/
theorem happened_or_waits {before : List Event} {n : Nat} {code : ErrorCode} :
    ∀ {h : List Event}, .plan operation n code :: before <:+ h →
      Happened h (.aimed before operation n code) ∨
        Waits h (.aimed before operation n code) (ofOperation operation (pending before))
  | [], hsuffix => absurd (List.eq_nil_of_suffix_nil hsuffix) (List.cons_ne_nil _ _)
  | event :: h, hsuffix => by
    rcases List.suffix_cons_iff.1 hsuffix with heq | hsuffix
    · rw [← heq]
      exact .inr (waits_aimed before operation n code)
    · rcases happened_or_waits hsuffix with hp | hp
      · exact .inl (happened_cons.2 (.inr hp))
      · cases event with
        | plan operation' n' code' => exact .inr (hp.plan operation' n' code')
        | call called => exact hp.call called

/-! ## Other operations -/

/-- The failures of an operation that are to come. -/
def own (operation : Operation) (faults : Faults) : List ComingFailure :=
  faults.failures.filter fun f => f.operation = operation

/-- A failure that is due is of the operation that is called. -/
theorem operation_of_isDue {f : ComingFailure} (hf : f.isDue operation = true) : f.operation = operation := by
  rw [ComingFailure.isDue, Bool.and_eq_true, decide_eq_true_eq] at hf
  exact hf.1

theorem filter_advance (operation called : Operation) (failures : List ComingFailure) :
    (failures.map fun f => f.advance called).filter (fun f => f.operation = operation) =
      (failures.filter fun f => f.operation = operation).map fun f => f.advance called := by
  rw [List.filter_map]
  refine congrArg _ (List.filter_congr fun f _ => ?_)
  rw [Function.comp_apply, (operation_advance called f).1]

/-- A call goes by the failures of its operation, and takes from these alone. -/
theorem note_own (faults : Faults) (operation : Operation) :
    (faults.note operation).1 =
        (match ((own operation faults).map fun f => f.advance operation).find? fun f => f.isDue operation with
        | some f => .error f.error
        | none => .ok ()) ∧
      own operation (faults.note operation).2 =
        ((own operation faults).map fun f => f.advance operation).eraseP fun f => f.isDue operation := by
  have hdue (f : ComingFailure) :
      (f.isDue operation && decide (f.operation = operation)) = f.isDue operation := by
    rw [Bool.and_eq_left_iff_imp, decide_eq_true_eq]
    exact operation_of_isDue
  have hfind : ((own operation faults).map fun f => f.advance operation).find? (fun f => f.isDue operation) =
      (faults.failures.map fun f => f.advance operation).find? fun f => f.isDue operation := by
    rw [own, ← filter_advance, List.find?_filter]
    simp only [Bool.decide_and, Bool.decide_eq_true, Bool.and_comm (decide _), hdue]
  constructor
  · rw [hfind, note]
    dsimp only
    cases (faults.failures.map fun f => f.advance operation).find? fun f => f.isDue operation <;> rfl
  · rw [own, note_failures, own, ← filter_advance, List.eraseP_filter]
    simp only [hdue]

/-- A call of another operation leaves the failures of an operation as they are. -/
theorem own_note_other (faults : Faults) {called : Operation} (hne : called ≠ operation) :
    own operation (faults.note called).2 = own operation faults := by
  have hsame : (faults.failures.map fun f => f.advance called).filter (fun f => f.operation = operation) =
      own operation faults := by
    rw [filter_advance]
    refine (List.map_congr_left fun f hf => ?_).trans (List.map_id _)
    have hoperation : f.operation = operation := of_decide_eq_true (List.mem_filter.1 hf).2
    exact if_neg (hoperation.symm ▸ Ne.symm hne)
  rw [own, note_failures]
  rcases List.exists_or_eq_self_of_eraseP (fun f : ComingFailure => f.isDue called)
    (faults.failures.map fun f => f.advance called) with heq | ⟨f, front, behind, -, hf, heq, herase⟩
  · rw [heq]
    exact hsame
  · -- the failure that is taken is of the other operation
    have hother : decide (f.operation = operation) = false :=
      decide_eq_false fun hoperation => hne ((operation_of_isDue hf).symm.trans hoperation)
    rw [heq, List.filter_append, List.filter_cons, hother, if_neg Bool.false_ne_true] at hsame
    rw [herase, List.filter_append]
    exact hsame

theorem own_failAt (faults : Faults) (operation planned : Operation) (n : Nat) (code : ErrorCode) :
    own operation (faults.failAt planned n code) =
      if planned = operation then own operation faults ++ [⟨planned, max n 1, code⟩] else own operation faults := by
  rw [own, failAt, List.filter_append, List.filter_singleton]
  by_cases hp : planned = operation
  · rw [if_pos hp, decide_eq_true hp, cond_true, own]
  · rw [if_neg hp, decide_eq_false hp, cond_false, List.append_nil, own]

/-- What is done with an operation. -/
def about (operation : Operation) (h : List Event) : List Event :=
  h.filter fun event => event.operation = operation

/-- **Other operations** have no part in what becomes of the failures of an operation. -/
theorem own_after (operation : Operation) : ∀ h : List Event,
    own operation (after h) = own operation (after (about operation h))
  | [] => rfl
  | event :: h => by
    have ih := own_after operation h
    by_cases hevent : event.operation = operation
    · have habout : about operation (event :: h) = event :: about operation h :=
        List.filter_cons_of_pos (decide_eq_true hevent)
      rw [habout]
      cases event with
      | plan planned n code => rw [after, after, own_failAt, own_failAt, ih]
      | call called =>
        obtain rfl : called = operation := hevent
        rw [after, after, (note_own _ _).2, (note_own _ _).2, ih]
    · have habout : about operation (event :: h) = about operation h :=
        List.filter_cons_of_neg (by simpa using hevent)
      rw [habout, ← ih]
      cases event with
      | plan planned n code => exact (own_failAt ..).trans (if_neg hevent)
      | call called => exact own_note_other _ hevent

/-! ## Targets -/

/-- No two failures of an operation that are planned in a history are aimed at one call. -/
def Apart (h : List Event) (operation : Operation) : Prop :=
  ∀ p ∈ plans h, ∀ q ∈ plans h, p.operation = operation → q.operation = operation → p.target = q.target → p = q

theorem plans_subset_cons (event : Event) (h : List Event) : plans h ⊆ plans (event :: h) := by
  cases event with
  | plan => exact List.subset_append_left _ _
  | call => exact List.Subset.refl _

theorem Apart.of_cons {event : Event} (ha : Apart (event :: h) operation) : Apart h operation :=
  fun p hp q hq => ha p (plans_subset_cons event h hp) q (plans_subset_cons event h hq)

/-- Failures that are aimed at calls of their own are never late. -/
theorem lt_target : ∀ {h : List Event}, Apart h operation → ∀ p ∈ pending h, p.operation = operation →
    h.count (.call operation) < p.target
  | [], _, _, hp, _ => absurd hp List.not_mem_nil
  | .plan planned n code :: h, ha, p, hp, hoperation => by
    rw [List.count_cons_of_ne (by simp)]
    rcases List.mem_append.1 hp with hp | hnew
    · exact lt_target ha.of_cons p hp hoperation
    · obtain rfl := List.mem_singleton.1 hnew
      obtain rfl : planned = operation := hoperation
      simp only [Planned.aimed]
      omega
  | .call called :: h, ha, p, hp, hoperation => by
    have hmem : p ∈ pending h := List.mem_of_mem_eraseP hp
    have hlt := lt_target ha.of_cons p hmem hoperation
    rw [count_call]
    split
    · rename_i hcalled
      rw [hcalled] at hp
      refine Nat.lt_of_le_of_ne hlt fun htarget => ?_
      -- were the call its target, it would be the one that happens
      obtain ⟨q, hq⟩ := exists_next hmem (hoperation.symm ▸ Nat.le_of_eq htarget.symm)
      rw [hoperation] at hq
      obtain ⟨hqmem, hqoperation, hqtarget⟩ := next_eq_some hq
      have hqlt := lt_target ha.of_cons q hqmem hqoperation
      have hpq : p = q := ha.of_cons p ((pending_sublist h).subset hmem) q ((pending_sublist h).subset hqmem)
        hoperation hqoperation (by omega)
      exact notMem_of_next (hpq ▸ hq) hp
    · exact hlt

/-- A failure that is aimed at a call of its own happens there. -/
theorem Apart.next_eq_some_iff (ha : Apart h operation) :
    next h operation = some p ↔ p ∈ plans h ∧ p.operation = operation ∧ p.target = h.count (.call operation) + 1 := by
  constructor
  · intro hp
    obtain ⟨hmem, hoperation, htarget⟩ := next_eq_some hp
    exact ⟨(pending_sublist h).subset hmem, hoperation, Nat.le_antisymm htarget (lt_target ha p hmem hoperation)⟩
  · rintro ⟨hplan, rfl, htarget⟩
    have hmem : p ∈ pending h := (happened_or_pending hplan).resolve_left fun hp => by
      have := hp.target_le
      omega
    obtain ⟨q, hq⟩ := exists_next hmem (Nat.le_of_eq htarget)
    obtain ⟨hqmem, hqoperation, hqtarget⟩ := next_eq_some hq
    have hqlt := lt_target ha q hqmem hqoperation
    rw [hq, ha p hplan q ((pending_sublist h).subset hqmem) rfl hqoperation (by omega)]

/-! ## On time -/

/--
**Planned failures happen once and on time**, whatever was planned and called, and in whatever order. A store holds
those that have not happened. A call fails just if one happens, with the code planned, and that one was planned before
the call for its operation, has its target there or earlier, and has not happened yet. None is lost: one that has not
happened is to come, and from its target on there were no more calls of its operation than failures of the operation
were to come when it was planned. What was done with other operations has no part in it. And if no two failures of the
operation are aimed at one call, the call fails just if a failure is aimed at it.
-/
theorem failures_on_time (h : List Event) (operation : Operation) :
    (after h).failures = (pending h).map (Planned.coming h) ∧
    (((after h).note operation).1 = match next h operation with | some p => .error p.error | none => .ok ()) ∧
    (∀ p, next h operation = some p →
      p ∈ plans h ∧ p.operation = operation ∧ p.target ≤ h.count (.call operation) + 1 ∧ ¬ Happened h p) ∧
    (∀ n code before, .plan operation n code :: before <:+ h →
      let p := Planned.aimed before operation n code
      Happened h p ∨
        p ∈ pending h ∧ h.count (.call operation) < p.target + ofOperation operation (pending before)) ∧
    ((after h).note operation).1 = ((after (about operation h)).note operation).1 ∧
    (Apart h operation → ∀ e, ((after h).note operation).1 = .error e ↔
      ∃ p ∈ plans h, p.operation = operation ∧ p.target = h.count (.call operation) + 1 ∧ p.error = e) := by
  refine ⟨failures_after h, note_after h operation, fun p hp => ?_, fun n code before hplan => ?_, ?_,
    fun ha e => ?_⟩
  · obtain ⟨hmem, hoperation, htarget⟩ := next_eq_some hp
    exact ⟨(pending_sublist h).subset hmem, hoperation, htarget, once hp⟩
  · refine (happened_or_waits hplan).imp_right fun ⟨front, behind, hpending, _, hlate⟩ => ⟨?_, ?_⟩
    · rw [hpending]
      exact List.mem_append_right _ List.mem_cons_self
    · exact Nat.lt_of_le_of_lt (Nat.le_add_right _ _) hlate
  · rw [(note_own _ _).1, (note_own _ _).1, own_after operation h]
  · rw [note_after]
    constructor
    · intro hfails
      split at hfails
      · rename_i p hp
        obtain ⟨hplan, hoperation, htarget⟩ := ha.next_eq_some_iff.1 hp
        exact ⟨p, hplan, hoperation, htarget, Except.error.inj hfails⟩
      · cases hfails
    · rintro ⟨p, hplan, hoperation, htarget, rfl⟩
      rw [ha.next_eq_some_iff.2 ⟨hplan, hoperation, htarget⟩]

instance (h : List Event) (operation : Operation) : Decidable (Apart h operation) :=
  inferInstanceAs (Decidable (∀ p ∈ plans h, ∀ q ∈ plans h, _ → _ → _ → _))

/-- Of two failures aimed at one call, that planned later comes one call late. -/
example :
    let h : List Event := [.plan .query 1 .throttled, .plan .query 1 .internal]
    ((after h).note .query).1 = .error ⟨.internal, "injected failure on Query", none⟩ ∧
      ((after (.call .query :: h)).note .query).1 = .error ⟨.throttled, "injected failure on Query", none⟩ ∧
      ((after (.call .query :: .call .query :: h)).note .query).1 = .ok () := by
  decide

/-- Two failures of queries, the second planned after a query for the call behind the target of the first. -/
theorem failures_on_time_between :
    let h : List Event := [.call .scan, .call .query, .plan .query 2 .throttled, .call .query, .call .scan,
      .plan .scan 3 .transport, .plan .query 2 .internal]
    Apart h .query ∧ ((after h).note .query).1 = .error ⟨.throttled, "injected failure on Query", none⟩ ∧
      Happened h (.aimed [] .query 2 .internal) := by
  intro h
  have ha : Apart h .query := by decide
  obtain ⟨-, -, -, hkept, -, hexact⟩ := failures_on_time h .query
  refine ⟨ha, (hexact ha _).2 ⟨.aimed (h.drop 3) .query 2 .throttled, by decide⟩, ?_⟩
  refine (hkept 2 .internal [] ⟨h.take 6, rfl⟩).resolve_right fun hwaits => ?_
  exact absurd hwaits.2 (by decide)

end RecordStore.Faults
