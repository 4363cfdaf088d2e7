import Mathlib.Data.List.Forall2
import RecordStore.Store.Basic

/-!
# What calls come to

A call takes a state to an outcome and the state after it. The lemmas say what the calls that are put together of others
come to, from what the others come to.
-/

namespace RecordStore

/-- A computation of two steps succeeds if both do. -/
theorem bind_eq_ok {ε α β : Type} {x : Except ε α} {f : α → Except ε β} {r : β} :
    (x >>= f) = .ok r ↔ ∃ a, x = .ok a ∧ f a = .ok r := by
  cases x with
  | error e => exact ⟨nofun, fun ⟨_, h, _⟩ => nomatch h⟩
  | ok a => exact ⟨fun h => ⟨a, rfl, h⟩, fun ⟨_, h, hf⟩ => by cases h; exact hf⟩

/-- A computation of two steps fails if the first does, or the second after it. -/
theorem bind_eq_error {ε α β : Type} {x : Except ε α} {f : α → Except ε β} {e : ε} :
    (x >>= f) = .error e ↔ x = .error e ∨ ∃ a, x = .ok a ∧ f a = .error e := by
  cases x with
  | error e' =>
    refine ⟨fun h => .inl (by cases h; rfl), ?_⟩
    rintro (h | ⟨a, h, -⟩) <;> cases h
    rfl
  | ok a =>
    refine ⟨fun h => .inr ⟨a, rfl, h⟩, ?_⟩
    rintro (h | ⟨a, h, hf⟩) <;> cases h
    exact hf

/-- What is made of items one after the other is made of each of them. -/
theorem mapM_eq_ok {ε α β : Type} {f : α → Except ε β} : ∀ {xs : List α} {ys : List β},
    xs.mapM f = .ok ys ↔ List.Forall₂ (fun x y => f x = .ok y) xs ys
  | [], ys => by
    rw [List.forall₂_nil_left_iff]
    exact ⟨fun h => (Except.ok.inj h).symm, fun h => congrArg Except.ok h.symm⟩
  | x :: xs, ys => by
    rw [List.mapM_cons, bind_eq_ok, List.forall₂_cons_left_iff]
    constructor
    · rintro ⟨y, hy, h⟩
      obtain ⟨rest, hrest, h⟩ := bind_eq_ok.1 h
      cases h
      exact ⟨y, rest, hy, mapM_eq_ok.1 hrest, rfl⟩
    · rintro ⟨y, rest, hy, hrest, rfl⟩
      exact ⟨y, hy, bind_eq_ok.2 ⟨rest, mapM_eq_ok.2 hrest, rfl⟩⟩

/-- Items of which each comes from just one value are read as the values that they come from. -/
theorem mapM_eq_ok_iff_map {ε α β : Type} {f : α → Except ε β} {g : β → α} (h : ∀ x y, f x = .ok y ↔ x = g y)
    {xs : List α} {ys : List β} : xs.mapM f = .ok ys ↔ xs = ys.map g := by
  simp only [mapM_eq_ok, h]
  rw [← List.forall₂_map_right_iff (R := Eq), List.forall₂_eq_eq_eq]

/-- What is made of items one after the other fails if it fails of one of them. -/
theorem mapM_eq_error {ε α β : Type} {f : α → Except ε β} {e : ε} : ∀ {xs : List α}, xs.mapM f = .error e →
    ∃ x ∈ xs, f x = .error e
  | [], h => by cases h
  | x :: xs, h => by
    rw [List.mapM_cons] at h
    rcases bind_eq_error.1 h with hx | ⟨_, -, h⟩
    · exact ⟨x, List.mem_cons_self, hx⟩
    · rcases bind_eq_error.1 h with hxs | ⟨_, -, h⟩
      · obtain ⟨y, hy, hfail⟩ := mapM_eq_error hxs
        exact ⟨y, List.mem_cons_of_mem x hy, hfail⟩
      · cases h

/-- What is made of an outcome is there if the outcome is. -/
theorem map_eq_ok {ε α β : Type} {f : α → β} {x : Except ε α} {r : β} :
    f <$> x = .ok r ↔ ∃ a, x = .ok a ∧ f a = r := by
  cases x with
  | error e => exact ⟨nofun, fun ⟨_, h, _⟩ => nomatch h⟩
  | ok a => exact ⟨fun h => ⟨a, rfl, Except.ok.inj h⟩, fun ⟨_, h, hf⟩ => by cases h; exact congrArg Except.ok hf⟩

/-- An outcome whose error is changed is an answer if it was one. -/
theorem mapError_eq_ok {ε ε' α : Type} {f : ε → ε'} {x : Except ε α} {a : α} : x.mapError f = .ok a ↔ x = .ok a := by
  cases x with
  | error e => exact ⟨nofun, nofun⟩
  | ok b => exact ⟨fun h => by cases h; rfl, fun h => by cases h; rfl⟩

/-- Checks that are made one after the other pass if each does. -/
theorem forM_eq_ok {ε α : Type} {f : α → Except ε PUnit} : ∀ {xs : List α},
    xs.forM f = .ok () ↔ ∀ x ∈ xs, f x = .ok ()
  | [] => ⟨fun _ => nofun, fun _ => rfl⟩
  | x :: xs => by
    rw [List.forM_eq_forM, List.forM_cons, bind_eq_ok, List.forall_mem_cons]
    constructor
    · rintro ⟨u, hx, hxs⟩
      exact ⟨hx, forM_eq_ok.1 hxs⟩
    · rintro ⟨hx, hxs⟩
      exact ⟨(), hx, forM_eq_ok.2 hxs⟩

namespace Call

variable {σ ε ε' α β : Type} {s s' : σ}

theorem bind_eq (x : Call σ ε α) (f : α → Call σ ε β) (s : σ) :
    (x >>= f) s = match x s with
      | (.ok a, s') => f a s'
      | (.error e, s') => (.error e, s') := by
  simp only [bind, ExceptT.bind, ExceptT.mk, ExceptT.bindCont, StateT.bind]
  cases hx : x s with | mk r s' => cases r <;> rfl

/-- After a step with an answer comes the rest. -/
theorem bind_of_ok {x : Call σ ε α} {f : α → Call σ ε β} {a : α} (h : (x s).1 = .ok a) :
    (x >>= f) s = f a (x s).2 := by
  have hx : x s = (.ok a, (x s).2) := Prod.ext h rfl
  rw [bind_eq, hx]

/-- After a step that has come to an answer and a state comes the rest. -/
theorem bind_of_eq {x : Call σ ε α} {f : α → Call σ ε β} {a : α} (h : x s = (.ok a, s')) : (x >>= f) s = f a s' := by
  rw [bind_eq, h]

/-- After a step without an answer comes nothing. -/
theorem bind_of_error {x : Call σ ε α} {f : α → Call σ ε β} {e : ε} (h : (x s).1 = .error e) :
    (x >>= f) s = (.error e, (x s).2) := by
  have hx : x s = (.error e, (x s).2) := Prod.ext h rfl
  rw [bind_eq, hx]

/-- A call of two steps succeeds if both do. -/
theorem bind_ok {x : Call σ ε α} {f : α → Call σ ε β} {r : β} (h : (x >>= f) s = (.ok r, s')) :
    ∃ a s₁, x s = (.ok a, s₁) ∧ f a s₁ = (.ok r, s') := by
  rw [bind_eq] at h
  split at h
  · exact ⟨_, _, ‹_›, h⟩
  · cases h

/-- After a step that calls nothing comes the rest. -/
theorem bind_ofExcept_ok {x : Except ε α} {f : α → Call σ ε β} {r : β} (h : (ofExcept x >>= f) s = (.ok r, s')) :
    ∃ a, x = .ok a ∧ f a s = (.ok r, s') := by
  obtain ⟨a, s₁, hrun, h⟩ := bind_ok h
  obtain ⟨hx, rfl⟩ := Prod.mk.inj hrun
  exact ⟨a, hx, h⟩

/-- A call of two steps fails if the first does, or the second after it. -/
theorem bind_error {x : Call σ ε α} {f : α → Call σ ε β} {e : ε} (h : (x >>= f) s = (.error e, s')) :
    x s = (.error e, s') ∨ ∃ a s₁, x s = (.ok a, s₁) ∧ f a s₁ = (.error e, s') := by
  rw [bind_eq] at h
  split at h
  · exact .inr ⟨_, _, ‹_›, h⟩
  · cases h
    exact .inl ‹_›

/-- A step that calls nothing fails and changes nothing, or the rest fails. -/
theorem bind_ofExcept_error {x : Except ε α} {f : α → Call σ ε β} {e : ε}
    (h : (ofExcept x >>= f) s = (.error e, s')) :
    (x = .error e ∧ s' = s) ∨ ∃ a, x = .ok a ∧ f a s = (.error e, s') := by
  rcases bind_error h with h | ⟨a, s₁, hrun, h⟩
  · obtain ⟨hx, rfl⟩ := Prod.mk.inj h
    exact .inl ⟨hx, rfl⟩
  · obtain ⟨hx, rfl⟩ := Prod.mk.inj hrun
    exact .inr ⟨a, hx, h⟩

theorem get_eq (s : σ) : (get : Call σ ε σ) s = (.ok s, s) := rfl

theorem map_eq (f : α → β) (x : Call σ ε α) (s : σ) : (f <$> x) s = (f <$> (x s).1, (x s).2) := by
  have h : (f <$> x) = x >>= fun a => pure (f a) := (bind_pure_comp f x).symm
  rw [h, bind_eq]
  cases hx : x s with | mk r s' => cases r <;> rfl

theorem mapError_eq (f : ε → ε') (x : Call σ ε α) (s : σ) : x.mapError f s = ((x s).1.mapError f, (x s).2) := by
  rw [mapError]
  cases hx : x s with | mk r s' => cases r <;> rfl

theorem attempt_eq (x : Call σ ε α) (s : σ) : x.attempt s = (.ok (x s).1, (x s).2) := rfl

end Call

end RecordStore
