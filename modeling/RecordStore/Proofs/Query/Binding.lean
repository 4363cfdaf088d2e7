import RecordStore.Proofs.Query.Aliases
import RecordStore.Proofs.Query.Meaning
import RecordStore.Proofs.Query.Rendering

/-!
# What bound conditions mean

`Expr.Means names values e p` says that the aliases of the expression `e` stand for something, and that it holds of just
the items of which `p` does. There is a lemma for each way to make a condition, and **`Test.condition_means`** for the
condition of a test.

`BoundCondition.Expresses b p` is the same of a bound condition, wherever what its aliases stand for can be found:
**`Test.bind_expresses`** for the condition that a test is bound to, `BoundCondition.all_expresses` for joined ones.
-/

namespace RecordStore

variable {names : NameAliases} {values : ValueAliases}

namespace Expr

/-- The expression holds of the items of which `p` does. -/
structure Means (names : NameAliases) (values : ValueAliases) (e : Expr) (p : Item → Bool) : Prop where
  check : e.check names values = .ok ()
  eval : ∀ item, e.eval ⟨item, names, values⟩ = .ok (p item)

variable {e l r : Expr} {p q : Item → Bool}

theorem Means.not (h : Means names values e p) : Means names values (.not e) fun item => !p item := by
  refine ⟨h.check, fun item => ?_⟩
  simp only [Expr.eval, h.eval, bind, Except.bind]

theorem Means.and (hl : Means names values l p) (hr : Means names values r q) :
    Means names values (.and l r) fun item => p item && q item := by
  refine ⟨by simp [Expr.check, hl.check, hr.check, bind, Except.bind], fun item => ?_⟩
  simp only [Expr.eval, hl.eval, hr.eval, bind, Except.bind]
  cases p item <;> rfl

theorem Means.or (hl : Means names values l p) (hr : Means names values r q) :
    Means names values (.or l r) fun item => p item || q item := by
  refine ⟨by simp [Expr.check, hl.check, hr.check, bind, Except.bind], fun item => ?_⟩
  simp only [Expr.eval, hl.eval, hr.eval, bind, Except.bind]
  cases p item <;> rfl

/-- A chain of AND. -/
theorem Means.andChain {es : List Expr} {ps : List (Item → Bool)} (h : Means names values e p)
    (hs : List.Forall₂ (Means names values) es ps) :
    Means names values (es.foldl .and e) fun item => p item && ps.all (· item) := by
  induction hs generalizing e p with
  | nil => simpa using h
  | cons hx _ ih => simpa [Bool.and_assoc] using ih (h.and hx)

/-- A chain of OR. -/
theorem Means.orChain {es : List Expr} {ps : List (Item → Bool)} (h : Means names values e p)
    (hs : List.Forall₂ (Means names values) es ps) :
    Means names values (es.foldl .or e) fun item => p item || ps.any (· item) := by
  induction hs generalizing e p with
  | nil => simpa using h
  | cons hx _ ih => simpa [Bool.or_assoc] using ih (h.or hx)

end Expr

namespace Condition

open RecordStore.Expr (Means)

/-! ## Operands -/

/-- A name alias and the field that it stands for. -/
structure Refers (names : NameAliases) (name field : String) : Prop where
  isAlias : IsNameAlias name
  find : names.find name = some field

theorem Refers.resolve {name field : String} (h : Refers names name field) :
    Scope.resolve names name = some field := by
  obtain ⟨w, _, rfl⟩ := h.isAlias
  rw [Scope.resolve, if_pos (by simp), h.find]

theorem Refers.operand {name field : String} (h : Refers names name field) (item : Item) :
    Scope.operand ⟨item, names, values⟩ (.path ⟨name, []⟩) = .ok (item.find field) := by
  rw [Scope.operand, Scope.lookup, h.resolve]
  cases hf : item.find field <;> simp [hf, Scope.follow]

theorem Refers.lookup {name field : String} (h : Refers names name field) (item : Item) :
    Scope.lookup ⟨item, names, values⟩ ⟨name, []⟩ = item.find field :=
  Except.ok.inj (h.operand item)

theorem Refers.check {name field : String} (h : Refers names name field) :
    Expr.checkOperand names values (.path ⟨name, []⟩) = .ok () := by
  simp [Expr.checkOperand, Expr.checkPath, Path.names, h.resolve]

theorem operand_value {value : String} {a : Attribute} (h : values.find value = some a) (item : Item) :
    Scope.operand ⟨item, names, values⟩ (.value value) = .ok (some a) := by
  rw [Scope.operand, h]

theorem check_value {value : String} {a : Attribute} (h : values.find value = some a) :
    Expr.checkOperand names values (.value value) = .ok () := by
  simp [Expr.checkOperand, Fields.has, h]

/-! ## Conditions -/

theorem means_compare {name field value : String} {a : Attribute} (hn : Refers names name field)
    (hv : values.find value = some a) (op : Comparison) :
    Means names values (toExpr (.compare name op value)) fun item =>
      (item.find field).any fun b => Attribute.holds op b a := by
  refine ⟨?_, fun item => ?_⟩
  · simp [toExpr, Expr.check, Expr.checkOperands, hn.check, check_value hv, bind, Except.bind]
  · simp only [toExpr, Expr.eval, hn.operand, operand_value hv, bind, Except.bind]
    cases item.find field <;> rfl

theorem means_between {name field low high : String} {a b : Attribute} (hn : Refers names name field)
    (hl : values.find low = some a) (hh : values.find high = some b) :
    Means names values (toExpr (.between name low high)) fun item =>
      (item.find field).any fun c => Attribute.holds .ge c a && Attribute.holds .le c b := by
  refine ⟨?_, fun item => ?_⟩
  · simp [toExpr, Expr.check, Expr.checkOperands, hn.check, check_value hl, check_value hh, bind, Except.bind]
  · simp only [toExpr, Expr.eval, hn.operand, operand_value hl, operand_value hh, bind, Except.bind]
    cases item.find field <;> rfl

/-- A function of an attribute alone. -/
theorem means_callOne {name field : String} (hn : Refers names name field) {f : Function} {p : Option Attribute → Bool}
    (hf : ∀ a, Scope.apply f a none = .ok (p a)) :
    Means names values (toExpr (.call f name none)) fun item => p (item.find field) := by
  refine ⟨?_, fun item => ?_⟩
  · simp [toExpr, Expr.check, Expr.checkOperands, hn.check, bind, Except.bind]
  · simp only [toExpr, Expr.eval, Scope.call, hn.lookup, bind, Except.bind, hf]

/-- A function of an attribute and a value. -/
theorem means_callTwo {name field value : String} {b : Attribute} (hn : Refers names name field)
    (hv : values.find value = some b) {f : Function} {p : Option Attribute → Bool}
    (hf : ∀ a, Scope.apply f a (some b) = .ok (p a)) :
    Means names values (toExpr (.call f name (some value))) fun item => p (item.find field) := by
  refine ⟨?_, fun item => ?_⟩
  · simp [toExpr, Expr.check, Expr.checkOperands, hn.check, check_value hv, bind, Except.bind]
  · simp only [toExpr, Expr.eval, Scope.call, hn.lookup, operand_value hv, bind, Except.bind, hf]

/-- A conjunction holds where all of its members do. -/
theorem means_all {cs : List Condition} {ps : List (Item → Bool)} (hne : cs ≠ [])
    (hs : List.Forall₂ (fun c p => Means names values c.toExpr p) cs ps) :
    Means names values (toExpr (.all cs)) fun item => ps.all (· item) := by
  cases hs with
  | nil => exact absurd rfl hne
  | cons hc hs =>
    rw [toExpr, toExprs_eq_map]
    exact hc.andChain (List.forall₂_map_left_iff.2 hs)

/-- A disjunction holds where one of its members does. -/
theorem means_any {cs : List Condition} {ps : List (Item → Bool)} (hne : cs ≠ [])
    (hs : List.Forall₂ (fun c p => Means names values c.toExpr p) cs ps) :
    Means names values (toExpr (.any cs)) fun item => ps.any (· item) := by
  cases hs with
  | nil => exact absurd rfl hne
  | cons hc hs =>
    rw [toExpr, toExprs_eq_map]
    exact hc.orChain (List.forall₂_map_left_iff.2 hs)

theorem toExpr_conjunction : ∀ cs : List Condition, (conjunction cs).toExpr = (Condition.all cs).toExpr
  | [] => rfl
  | [c] => by simp [conjunction, toExpr, toExprs]
  | _ :: _ :: _ => rfl

theorem toExpr_disjunction : ∀ cs : List Condition, (disjunction cs).toExpr = (Condition.any cs).toExpr
  | [] => rfl
  | [c] => by simp [disjunction, toExpr, toExprs]
  | _ :: _ :: _ => rfl

theorem sound_conjunction : ∀ {cs : List Condition}, cs ≠ [] → SoundAll cs → (conjunction cs).Sound
  | [], h, _ => absurd rfl h
  | [_], _, h => h.1
  | _ :: _ :: _, _, h => ⟨nofun, h⟩

theorem sound_disjunction : ∀ {cs : List Condition}, cs ≠ [] → SoundAll cs → (disjunction cs).Sound
  | [], h, _ => absurd rfl h
  | [_], _, h => h.1
  | _ :: _ :: _, _, h => ⟨nofun, h⟩

end Condition

/-! ## Tests -/

namespace Test

open Condition (IsNameAlias IsValueAlias Refers)

/-- Equality with one of some values. -/
theorem means_candidates {name field : String} (hn : Refers names name field) {keys : List String}
    {as : List Attribute} (hv : List.Forall₂ (fun key a => values.find key = some a) keys as) :
    List.Forall₂ (fun c p => Expr.Means names values c.toExpr p) (keys.map fun v => Condition.compare name .eq v)
      (as.map fun b (item : Item) => (item.find field).any fun a => Attribute.holds .eq a b) := by
  induction hv with
  | nil => exact .nil
  | cons hk _ ih => exact .cons (Condition.means_compare hn hk .eq) ih

/-- **The condition of a test** holds where the test does. -/
theorem condition_means {name field : String} (hn : Refers names name field) {test : Test} {keys : List String}
    (hv : List.Forall₂ (fun key a => values.find key = some a) keys test.values) :
    Expr.Means names values (test.condition name keys).toExpr fun item => test.holds (item.find field) := by
  cases test with
  | compare op a =>
    cases hv with | cons hk hv => exact Condition.means_compare hn hk op
  | between low high =>
    cases hv with | cons hl hv =>
    cases hv with | cons hh hv => exact Condition.means_between hn hl hh
  | beginsWith front =>
    cases hv with | cons hk hv => exact Condition.means_callTwo hn hk fun a => by cases a <;> rfl
  | contains part =>
    cases hv with | cons hk hv => exact Condition.means_callTwo hn hk fun a => by cases a <;> rfl
  | notContains part =>
    cases hv with | cons hk hv =>
    exact (Condition.means_callTwo hn hk (f := .contains) (p := fun a => a.any (·.hasPart part))
      fun a => by cases a <;> rfl).not
  | among first others =>
    have hne : keys ≠ [] := by rintro rfl; cases hv
    have := Condition.means_any (by simpa using hne) (means_candidates hn hv)
    rw [condition, Condition.toExpr_disjunction]
    refine ⟨this.check, fun item => (this.eval item).trans ?_⟩
    cases hf : item.find field <;> simp [Test.values, holds, hf, Function.comp_def]
  | «exists» => exact Condition.means_callOne hn fun _ => rfl
  | notExists => exact Condition.means_callOne hn fun _ => rfl

/-- The condition of a test can be read. -/
theorem condition_sound {name : String} (hn : IsNameAlias name) {test : Test} {keys : List String}
    (hl : keys.length = test.values.length) (hv : ∀ key ∈ keys, IsValueAlias key) :
    (test.condition name keys).Sound := by
  cases test with
  | compare | beginsWith | contains | notContains =>
    obtain ⟨key, rfl⟩ := List.length_eq_one_iff.1 hl
    have hkey := hv key (by simp)
    first | exact ⟨hn, hkey⟩ | exact ⟨rfl, hn, hkey⟩
  | between low high =>
    obtain ⟨l, h, rfl⟩ := List.length_eq_two.1 hl
    exact ⟨hn, hv l (by simp), hv h (by simp)⟩
  | among first others =>
    have hne : keys ≠ [] := by rintro rfl; cases hl
    refine Condition.sound_disjunction (by simpa using hne) (Condition.soundAll_iff.2 fun c hc => ?_)
    obtain ⟨key, hkey, rfl⟩ := List.mem_map.1 hc
    exact ⟨hn, hv key hkey⟩
  | «exists» => exact ⟨rfl, hn⟩
  | notExists => exact ⟨rfl, hn⟩

end Test

/-! ## Bound conditions -/

namespace BoundCondition

open Fields (Within Issued IssuedInTurn)

/-- The condition can be read and, where what its aliases stand for is found, holds of the items of which `p` does. -/
structure Expresses (b : BoundCondition) (p : Item → Bool) : Prop where
  sound : b.condition.Sound
  means : ∀ {names : NameAliases} {values : ValueAliases}, Within b.names names → Within b.values values →
    Expr.Means names values b.condition.toExpr p

/-- The aliases of a condition are aliases with numbers from `lo` up to `hi`. -/
structure Drawn (suffix : String) (lo hi : Nat) (b : BoundCondition) : Prop where
  names : Issued (Aliases.nameAlias suffix) lo hi b.names
  values : Issued (Aliases.valueAlias suffix) lo hi b.values

/-- Conditions with the aliases of each behind those of the one before. -/
structure DrawnInTurn (suffix : String) (lo hi : Nat) (bs : List BoundCondition) : Prop where
  names : IssuedInTurn (Aliases.nameAlias suffix) lo hi (bs.map (·.names))
  values : IssuedInTurn (Aliases.valueAlias suffix) lo hi (bs.map (·.values))

variable {suffix : String} {lo mid hi : Nat} {b : BoundCondition} {bs cs : List BoundCondition}

theorem DrawnInTurn.nil (suffix : String) (n : Nat) : DrawnInTurn suffix n n [] := ⟨rfl, rfl⟩

theorem Drawn.cons (h : b.Drawn suffix lo mid) (hs : DrawnInTurn suffix mid hi bs) :
    DrawnInTurn suffix lo hi (b :: bs) :=
  ⟨⟨mid, h.names, hs.names⟩, ⟨mid, h.values, hs.values⟩⟩

theorem DrawnInTurn.append (h : DrawnInTurn suffix lo mid bs) (h' : DrawnInTurn suffix mid hi cs) :
    DrawnInTurn suffix lo hi (bs ++ cs) := by
  refine ⟨?_, ?_⟩
  · rw [List.map_append]; exact h.names.append h'.names
  · rw [List.map_append]; exact h.values.append h'.values

/-- All aliases of some conditions are aliases with numbers in the range of all. -/
theorem DrawnInTurn.all (h : DrawnInTurn suffix lo hi bs) :
    Issued (Aliases.nameAlias suffix) lo hi (allNames bs) ∧ Issued (Aliases.valueAlias suffix) lo hi (allValues bs) ∧
      ∀ b ∈ bs, Within b.names (allNames bs) ∧ Within b.values (allValues bs) := by
  obtain ⟨hn, -, hnames⟩ := IssuedInTurn.merge Aliases.nameAlias_inj (.nil _ lo) h.names
  obtain ⟨hv, -, hvalues⟩ := IssuedInTurn.merge Aliases.valueAlias_inj (.nil _ lo) h.values
  rw [List.foldl_map] at hn hv hnames hvalues
  exact ⟨hn, hv, fun b hb => ⟨hnames _ (List.mem_map_of_mem hb), hvalues _ (List.mem_map_of_mem hb)⟩⟩

/-- Conditions that are all sound. -/
theorem soundAll_of_expresses {ps : List (Item → Bool)} (h : List.Forall₂ Expresses bs ps) :
    Condition.SoundAll (bs.map (·.condition)) := by
  induction h with
  | nil => trivial
  | cons hb _ ih => exact ⟨hb.sound, ih⟩

/-- What conditions mean where all that their aliases stand for is found. -/
theorem means_of_expresses {ps : List (Item → Bool)} (h : List.Forall₂ Expresses bs ps)
    (hw : ∀ b ∈ bs, Within b.names names ∧ Within b.values values) :
    List.Forall₂ (fun c p => Expr.Means names values c.toExpr p) (bs.map (·.condition)) ps := by
  induction h with
  | nil => exact .nil
  | cons hb _ ih =>
    obtain ⟨hwb, hw⟩ := List.forall_mem_cons.1 hw
    exact .cons (hb.means hwb.1 hwb.2) (ih hw)

/-- **The condition that all of some conditions hold.** -/
theorem all_expresses {ps : List (Item → Bool)} (h : List.Forall₂ Expresses bs ps) (hd : DrawnInTurn suffix lo hi bs)
    (hb : BoundCondition.all bs = some b) : b.Drawn suffix lo hi ∧ b.Expresses fun item => ps.all (· item) := by
  obtain ⟨hn, hv, hw⟩ := hd.all
  have hne : bs ≠ [] := by rintro rfl; cases hb
  have hb : b = ⟨.conjunction (bs.map (·.condition)), allNames bs, allValues bs⟩ := by
    cases bs with
    | nil => exact absurd rfl hne
    | cons c cs => exact (Option.some.inj hb).symm
  subst hb
  refine ⟨⟨hn, hv⟩, Condition.sound_conjunction (by simpa using hne) (soundAll_of_expresses h), fun hwn hwv => ?_⟩
  dsimp only
  rw [Condition.toExpr_conjunction]
  refine Condition.means_all (by simpa using hne) (means_of_expresses h fun c hc => ?_)
  exact ⟨(hw c hc).1.trans hwn, (hw c hc).2.trans hwv⟩

end BoundCondition

namespace Test

open Fields (Within numbered)

theorem bind_eq {field : String} {test : Test} {a : Aliases}
    (h : a.next + (1 + test.values.length) < Numeral.natBound) :
    test.bind field a =
      (⟨test.condition (Aliases.nameAlias a.suffix a.next)
          ((numbered (Aliases.valueAlias a.suffix) (a.next + 1) test.values).map (·.1)),
        [(Aliases.nameAlias a.suffix a.next, field)],
        Fields.ofList (numbered (Aliases.valueAlias a.suffix) (a.next + 1) test.values)⟩,
       { a with next := a.next + (1 + test.values.length) }) := by
  have hstep : test.bind field a =
      (⟨test.condition (Aliases.nameAlias a.suffix a.next) ((Test.bindValues test.values a.advance).1.map (·.1)),
        [(Aliases.nameAlias a.suffix a.next, field)], Fields.ofList (Test.bindValues test.values a.advance).1⟩,
       (Test.bindValues test.values a.advance).2) := rfl
  rw [hstep, Aliases.advance_eq (by omega), bindValues_eq _ _ (by dsimp only; omega)]
  simp only [Nat.add_assoc]

/-- **The condition that a test is bound to** says what the test asks of the field. -/
theorem bind_expresses {field : String} {test : Test} {a : Aliases} (ha : a.Wordy)
    (h : a.next + (1 + test.values.length) < Numeral.natBound) :
    (test.bind field a).1.Drawn a.suffix a.next (a.next + (1 + test.values.length)) ∧
      (test.bind field a).1.Expresses fun item => test.holds (item.find field) := by
  rw [bind_eq h]
  refine ⟨⟨⟨Fields.ordered_singleton _, by omega, fun k hk => ?_⟩, ?_⟩, ?_, fun hwn hwv => ?_⟩
  · -- the only name is the first alias
    have hk : Aliases.nameAlias a.suffix a.next = k := by simpa [Fields.has, Fields.find_cons] using hk
    exact ⟨a.next, Nat.le_refl _, by omega, hk.symm⟩
  · exact (Fields.issued_ofList _ _).widen (by omega) (by omega)
  · refine condition_sound (Aliases.nameAlias_isNameAlias ha _) (by simp [Fields.length_numbered]) fun key hkey => ?_
    obtain ⟨n, -, -, rfl⟩ := Fields.mem_numbered hkey
    exact Aliases.valueAlias_isValueAlias ha n
  · refine condition_means ⟨Aliases.nameAlias_isNameAlias ha _, hwn _ _ (if_pos rfl)⟩ ?_
    refine Fields.forall₂_numbered fun entry hentry => hwv _ _ ?_
    exact Fields.find_ofList_of_mem (Fields.nodup_numbered Aliases.valueAlias_inj _ _) hentry

end Test

end RecordStore
