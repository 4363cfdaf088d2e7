import RecordStore.Proofs.Store.Calls

/-!
# Rules for calls

What holds along a call however it ends, of one run and of two.

* `Call.Keeps P x Q`: from a state in `P` the call `x` leads to a state in `P`, and of its answer `Q` holds if it has
  one;
* `Call.Settles P x Q`: besides, the outcome of `x` is the same from all states in `P`;
* `Call.Relates S R x y`: from states that `S` relates the calls `x` and `y` lead to such states, and fail with the same
  error or have answers that `R` relates.

There is a rule for each way in which calls are put together of others.
-/

namespace RecordStore

/-! ## Two outcomes -/

/-- Two outcomes that are the same error, or answers that `R` relates. -/
inductive Agree {ε α β : Type} (R : α → β → Prop) : Except ε α → Except ε β → Prop
  | ok {a : α} {b : β} : R a b → Agree R (.ok a) (.ok b)
  | error (e : ε) : Agree R (.error e) (.error e)

namespace Agree

variable {ε ε' α α' β β' : Type} {R : α → β → Prop} {Q : α' → β' → Prop} {x : Except ε α} {y : Except ε β}

theorem refl {R : α → α → Prop} (h : ∀ a, R a a) : ∀ x : Except ε α, Agree R x x
  | .ok a => .ok (h a)
  | .error e => .error e

theorem imp {R' : α → β → Prop} (h : Agree R x y) (hR : ∀ a b, R a b → R' a b) : Agree R' x y := by
  cases h with
  | ok hab => exact .ok (hR _ _ hab)
  | error e => exact .error e

theorem eq {x y : Except ε α} (h : Agree (· = ·) x y) : x = y := by
  cases h with
  | ok hab => rw [hab]
  | error e => rfl

theorem isOk_eq (h : Agree R x y) : x.isOk = y.isOk := by
  cases h <;> rfl

/-- Answers that are related are those of the outcomes. -/
theorem self (h : Agree R x y) : Agree (fun a b => R a b ∧ x = .ok a ∧ y = .ok b) x y := by
  cases h with
  | ok hab => exact .ok ⟨hab, rfl, rfl⟩
  | error e => exact .error e

theorem bind {f : α → Except ε α'} {g : β → Except ε β'} (h : Agree R x y)
    (hf : ∀ a b, R a b → Agree Q (f a) (g b)) : Agree Q (x >>= f) (y >>= g) := by
  cases h with
  | ok hab => exact hf _ _ hab
  | error e => exact .error e

/-- What is done with the answer of one outcome agrees if it does for each answer. -/
theorem bind_same {f : α → Except ε α'} {g : α → Except ε β'} (h : ∀ a, x = .ok a → Agree Q (f a) (g a)) :
    Agree Q (x >>= f) (x >>= g) := by
  cases x with
  | ok a => exact h a rfl
  | error e => exact .error e

theorem map {f : α → α'} {g : β → β'} (h : Agree R x y) (hf : ∀ a b, R a b → Q (f a) (g b)) :
    Agree Q (f <$> x) (g <$> y) := by
  cases h with
  | ok hab => exact .ok (hf _ _ hab)
  | error e => exact .error e

theorem mapError (h : Agree R x y) (f : ε → ε') : Agree R (x.mapError f) (y.mapError f) := by
  cases h with
  | ok hab => exact .ok hab
  | error e => exact .error (f e)

end Agree

namespace Call

variable {σ ε ε' α β : Type} {x : Call σ ε α} {f : α → Call σ ε β}

/-! ## One run -/

section Keeps

variable {P : σ → Prop} {Q : α → Prop} {B : β → Prop}

/-- From a state in `P` a call leads to such a state, and `Q` holds of its answer. -/
def Keeps (P : σ → Prop) (x : Call σ ε α) (Q : α → Prop) : Prop :=
  ∀ s, P s → P (x s).2 ∧ ∀ a, (x s).1 = .ok a → Q a

theorem keeps_ofExcept {r : Except ε α} (h : ∀ a, r = .ok a → Q a) : Keeps P (ofExcept r) Q :=
  fun _ hs => ⟨hs, h⟩

theorem keeps_pure {a : α} (h : Q a) : Keeps P (pure a : Call σ ε α) Q :=
  fun _ hs => ⟨hs, fun _ ha => by cases ha; exact h⟩

theorem keeps_throw (e : ε) : Keeps P (throw e : Call σ ε α) Q :=
  fun _ hs => ⟨hs, nofun⟩

theorem keeps_get : Keeps P (get : Call σ ε σ) fun _ => True :=
  fun _ hs => ⟨hs, fun _ _ => trivial⟩

theorem Keeps.bind (hx : Keeps P x Q) (hf : ∀ a, Q a → Keeps P (f a) B) : Keeps P (x >>= f) B := by
  intro s hs
  obtain ⟨hs', ha⟩ := hx s hs
  rw [bind_eq]
  generalize x s = o at hs' ha
  obtain ⟨e | a, s'⟩ := o
  · exact ⟨hs', nofun⟩
  · exact hf a (ha a rfl) s' hs'

theorem Keeps.map (hx : Keeps P x Q) {g : α → β} (hg : ∀ a, Q a → B (g a)) : Keeps P (g <$> x) B := by
  have hbind : (g <$> x) = x >>= fun a => pure (g a) := (bind_pure_comp g x).symm
  rw [hbind]
  exact hx.bind fun a ha => keeps_pure (hg a ha)

theorem Keeps.mapError (hx : Keeps P x Q) (g : ε → ε') : Keeps P (x.mapError g) Q := by
  intro s hs
  obtain ⟨hs', ha⟩ := hx s hs
  rw [mapError_eq]
  exact ⟨hs', fun a hr => ha a (mapError_eq_ok.1 hr)⟩

theorem Keeps.attempt (hx : Keeps P x Q) : Keeps P (x.attempt : Call σ ε (Except ε α)) fun r => ∀ a, r = .ok a → Q a :=
  fun s hs => ⟨(hx s hs).1, fun r hr => by cases hr; exact (hx s hs).2⟩

end Keeps

/-! ## Two runs -/

section Settles

variable {P : σ → Prop} {Q : α → Prop} {B : β → Prop}

/-- From all states in `P` a call leads to such states with one outcome, and `Q` holds of its answer. -/
structure Settles (P : σ → Prop) (x : Call σ ε α) (Q : α → Prop) : Prop where
  keeps : Keeps P x Q
  alike : ∀ s s', P s → P s' → (x s).1 = (x s').1

theorem settles_ofExcept {r : Except ε α} (h : ∀ a, r = .ok a → Q a) : Settles P (ofExcept r) Q :=
  ⟨keeps_ofExcept h, fun _ _ _ _ => rfl⟩

theorem settles_pure {a : α} (h : Q a) : Settles P (pure a : Call σ ε α) Q :=
  ⟨keeps_pure h, fun _ _ _ _ => rfl⟩

theorem settles_throw (e : ε) : Settles P (throw e : Call σ ε α) Q :=
  ⟨keeps_throw e, fun _ _ _ _ => rfl⟩

/-- Two runs that go on with the same answer do so from states in `P`. -/
theorem Settles.bind (hx : Settles P x Q) (hf : ∀ a, Q a → Settles P (f a) B) : Settles P (x >>= f) B := by
  refine ⟨hx.keeps.bind fun a ha => (hf a ha).keeps, fun s s' hs hs' => ?_⟩
  have hsame := hx.alike s s' hs hs'
  obtain ⟨hnext, ha⟩ := hx.keeps s hs
  obtain ⟨hnext', -⟩ := hx.keeps s' hs'
  rw [bind_eq, bind_eq]
  generalize x s = o at hsame hnext ha
  generalize x s' = o' at hsame hnext'
  obtain ⟨r, s₁⟩ := o
  obtain ⟨r', s₁'⟩ := o'
  obtain rfl : r = r' := hsame
  cases r with
  | error e => rfl
  | ok a => exact (hf a (ha a rfl)).alike s₁ s₁' hnext hnext'

theorem Settles.mapError (hx : Settles P x Q) (g : ε → ε') : Settles P (x.mapError g) Q := by
  refine ⟨hx.keeps.mapError g, fun s s' hs hs' => ?_⟩
  rw [mapError_eq, mapError_eq, hx.alike s s' hs hs']

theorem Settles.attempt (hx : Settles P x Q) :
    Settles P (x.attempt : Call σ ε (Except ε α)) fun r => ∀ a, r = .ok a → Q a :=
  ⟨hx.keeps.attempt, fun s s' hs hs' => congrArg Except.ok (hx.alike s s' hs hs')⟩

end Settles

/-! ## Two calls -/

section Relates

variable {τ α' β' : Type} {S : σ → τ → Prop} {R : α → β → Prop} {Q : α' → β' → Prop} {x : Call σ ε α} {y : Call τ ε β}

/-- From related states two calls lead to related states, and fail with the same error or have related answers. -/
def Relates (S : σ → τ → Prop) (R : α → β → Prop) (x : Call σ ε α) (y : Call τ ε β) : Prop :=
  ∀ s t, S s t → S (x s).2 (y t).2 ∧ Agree R (x s).1 (y t).1

theorem Relates.imp {R' : α → β → Prop} (h : Relates S R x y) (hR : ∀ a b, R a b → R' a b) : Relates S R' x y :=
  fun s t hs => ⟨(h s t hs).1, (h s t hs).2.imp hR⟩

theorem relates_ofExcept {r : Except ε α} {r' : Except ε β} (h : Agree R r r') :
    Relates S R (ofExcept r) (ofExcept r') :=
  fun _ _ hs => ⟨hs, h⟩

theorem relates_pure {a : α} {b : β} (h : R a b) : Relates S R (pure a : Call σ ε α) (pure b : Call τ ε β) :=
  fun _ _ hs => ⟨hs, .ok h⟩

theorem relates_throw (e : ε) : Relates S R (throw e : Call σ ε α) (throw e : Call τ ε β) :=
  fun _ _ hs => ⟨hs, .error e⟩

theorem relates_get : Relates S S (get : Call σ ε σ) (get : Call τ ε τ) :=
  fun _ _ hs => ⟨hs, .ok hs⟩

theorem Relates.bind {f : α → Call σ ε α'} {g : β → Call τ ε β'} (h : Relates S R x y)
    (hf : ∀ a b, R a b → Relates S Q (f a) (g b)) : Relates S Q (x >>= f) (y >>= g) := by
  intro s t hs
  obtain ⟨hs', hr⟩ := h s t hs
  rw [bind_eq, bind_eq]
  generalize x s = o at hs' hr
  generalize y t = o' at hs' hr
  obtain ⟨r, s'⟩ := o
  obtain ⟨r', t'⟩ := o'
  cases hr with
  | ok hab => exact hf _ _ hab s' t' hs'
  | error e => exact ⟨hs', .error e⟩

/-- What two calls do with the answer of one outcome is related if it is for each answer. -/
theorem relates_bind_same {r : Except ε α} {f : α → Call σ ε α'} {g : α → Call τ ε β'}
    (h : ∀ a, r = .ok a → Relates S Q (f a) (g a)) : Relates S Q (ofExcept r >>= f) (ofExcept r >>= g) := by
  cases r with
  | ok a => exact h a rfl
  | error e => exact fun _ _ hs => ⟨hs, .error e⟩

theorem Relates.map {f : α → α'} {g : β → β'} (h : Relates S R x y) (hf : ∀ a b, R a b → Q (f a) (g b)) :
    Relates S Q (f <$> x) (g <$> y) := by
  intro s t hs
  obtain ⟨hs', hr⟩ := h s t hs
  rw [map_eq, map_eq]
  exact ⟨hs', hr.map hf⟩

theorem Relates.mapError (h : Relates S R x y) (f : ε → ε') : Relates S R (x.mapError f) (y.mapError f) := by
  intro s t hs
  obtain ⟨hs', hr⟩ := h s t hs
  rw [mapError_eq, mapError_eq]
  exact ⟨hs', hr.mapError f⟩

theorem Relates.attempt (h : Relates S R x y) :
    Relates S (Agree R) (x.attempt : Call σ ε (Except ε α)) (y.attempt : Call τ ε (Except ε β)) :=
  fun s t hs => ⟨(h s t hs).1, .ok (h s t hs).2⟩

/-- An answer of one call is related to one of the other. -/
theorem Relates.answer (h : Relates S R x y) {s : σ} {t : τ} (hs : S s t) {a : α} (ha : (x s).1 = .ok a) :
    ∃ b, (y t).1 = .ok b ∧ R a b := by
  obtain ⟨-, hr⟩ := h s t hs
  rw [ha] at hr
  generalize (y t).1 = r at hr
  cases hr with
  | ok hab => exact ⟨_, rfl, hab⟩

/-- Of two calls from one state, one makes of the answer of the other what it should. -/
theorem Relates.eq_map {S : σ → σ → Prop} {y : Call σ ε β} {g : β → α} {G : β → Prop}
    (h : Relates S (fun a b => a = g b ∧ G b) x y) (hS : ∀ s s', S s s' → s = s') {s : σ} (hs : S s s) :
    x s = (g <$> y) s ∧ ∀ b, (y s).1 = .ok b → G b := by
  obtain ⟨hs', hr⟩ := h s s hs
  have hstate := hS _ _ hs'
  rw [map_eq]
  generalize x s = o at hr hstate
  generalize y s = o' at hr hstate
  obtain ⟨r, s₁⟩ := o
  obtain ⟨r', s₂⟩ := o'
  obtain rfl : s₁ = s₂ := hstate
  cases hr with
  | error e => exact ⟨rfl, nofun⟩
  | ok hab =>
    obtain ⟨rfl, hb⟩ := hab
    exact ⟨rfl, fun b' hb' => by cases hb'; exact hb⟩

end Relates

end Call

end RecordStore
