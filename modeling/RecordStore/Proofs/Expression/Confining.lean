import RecordStore.Proofs.Expression.Aliases
import RecordStore.Proofs.Expression.Equality

/-!
# Conditions that confine a query

An expression holds of an item just if each of its conjuncts does (`Expr.eval_eq_true_iff`). One that pins an attribute
has among its conjuncts the equality of this attribute with a value (`Expr.Fixes`), written either way round. That is no
matter, since equality of values is symmetric (`Attribute.holds_eq_comm`).

**`Expr.pins_confines`**: so an expression that pins an attribute names a value to which this attribute is equal in
every item of which the expression holds.
-/

namespace RecordStore

namespace Expr

variable {e : Expr} {s : Scope} {names : NameAliases} {key : String}

/-! ## Conjuncts -/

/-- **An expression holds** just if all of its conjuncts do. -/
theorem eval_eq_true_iff : ∀ {e : Expr}, e.eval s = .ok true ↔ ∀ c ∈ e.conjuncts, c.eval s = .ok true
  | .and l r => by
    rw [conjuncts, List.forall_mem_append, ← @eval_eq_true_iff l, ← @eval_eq_true_iff r, eval, bind_eq_ok]
    constructor
    · rintro ⟨b, hl, h⟩
      cases b with
      | false => cases h
      | true => exact ⟨hl, h⟩
    · rintro ⟨hl, hr⟩
      exact ⟨true, hl, hr⟩
  | .compare .. | .between .. | .among .. | .or .. | .not .. | .call .. => by
    rw [conjuncts, List.forall_mem_singleton]
    rintro _ _ ⟨⟩

/-! ## Attributes that are fixed -/

/-- The attribute `key` itself, under its own name or an alias. -/
def KeyOperand (names : NameAliases) (key : String) (o : Operand) : Prop :=
  ∃ head, o = .path ⟨head, []⟩ ∧ Scope.resolve names head = some key

/-- The equality of an attribute with the value of an alias, written either way round. -/
inductive Fixes (names : NameAliases) (key : String) : String → Expr → Prop
  | left {o : Operand} {v : String} : KeyOperand names key o → Fixes names key v (.compare o .eq (.value v))
  | right {o : Operand} {v : String} : KeyOperand names key o → Fixes names key v (.compare (.value v) .eq o)

theorem isKey_iff {o : Operand} : isKey names key o = true ↔ KeyOperand names key o := by
  unfold isKey
  split
  · rename_i head
    rw [decide_eq_true_eq]
    constructor
    · exact fun h => ⟨head, rfl, h⟩
    · rintro ⟨_, ⟨⟩, h⟩
      exact h
  · rename_i hother
    refine iff_of_false Bool.false_ne_true ?_
    rintro ⟨head, rfl, -⟩
    exact hother head rfl

theorem isValue_iff {o : Operand} : isValue o = true ↔ ∃ v, o = .value v := by
  cases o <;> simp [isValue]

/-- What is recognised as such an equality is one. -/
theorem fixes_iff {c : Expr} : fixes names key c = true ↔ ∃ v, Fixes names key v c := by
  constructor
  · intro h
    unfold fixes at h
    split at h
    · rename_i l r
      rw [Bool.or_eq_true, Bool.and_eq_true, Bool.and_eq_true, isKey_iff, isKey_iff, isValue_iff, isValue_iff] at h
      rcases h with ⟨hkey, v, rfl⟩ | ⟨hkey, v, rfl⟩
      · exact ⟨v, .left hkey⟩
      · exact ⟨v, .right hkey⟩
    · cases h
  · rintro ⟨v, h⟩
    cases h with
    | left hkey => rw [fixes, isKey_iff.2 hkey]; rfl
    | right hkey => rw [fixes, isKey_iff.2 hkey, Bool.true_and, isValue_iff.2 ⟨v, rfl⟩, Bool.or_true]

theorem pins_iff : e.pins names key = true ↔ ∃ c ∈ e.conjuncts, ∃ v, Fixes names key v c := by
  simp only [pins, List.any_eq_true, fixes_iff]

/-- The alias of the value is one of the equality. -/
theorem Fixes.mem_valueAliases {v : String} {c : Expr} (h : Fixes names key v c) : .value v ∈ c.operands := by
  cases h with
  | left _ => exact List.mem_cons_of_mem _ List.mem_cons_self
  | right _ => exact List.mem_cons_self

theorem KeyOperand.operand {o : Operand} (h : KeyOperand names key o) (item : Item) (values : ValueAliases) :
    Scope.operand ⟨item, names, values⟩ o = .ok (item.find key) := by
  obtain ⟨head, rfl, hresolve⟩ := h
  rw [Scope.operand, Scope.lookup]
  dsimp only
  rw [hresolve]
  cases hfind : item.find key <;> simp [hfind, Scope.follow]

/-- An operand that is the alias of a value is there if the alias stands for something. -/
theorem operand_value_ok {v : String} {o : Option Attribute} (h : s.operand (.value v) = .ok o) :
    ∃ b, s.values.find v = some b ∧ o = some b := by
  rw [Scope.operand] at h
  split at h
  · cases h
    exact ⟨_, ‹_›, rfl⟩
  · cases h

/-- A comparison that holds is one of two values that are there. -/
theorem eval_compare_true {l r : Operand} {op : Comparison} (h : (compare l op r).eval s = .ok true) :
    ∃ a b, s.operand l = .ok (some a) ∧ s.operand r = .ok (some b) ∧ Attribute.holds op a b = true := by
  obtain ⟨x, hx, h⟩ := bind_eq_ok.1 h
  obtain ⟨y, hy, h⟩ := bind_eq_ok.1 h
  cases x with
  | none => cases h
  | some a =>
    cases y with
    | none => cases h
    | some b => exact ⟨a, b, hx, hy, Except.ok.inj h⟩

/-- Where such an equality holds, the attribute is there and equals the value. -/
theorem Fixes.confines {v : String} {c : Expr} (h : Fixes names key v c) {item : Item} {values : ValueAliases}
    (hc : c.eval ⟨item, names, values⟩ = .ok true) :
    ∃ a b, item.find key = some a ∧ values.find v = some b ∧ Attribute.holds .eq a b = true := by
  cases h with
  | left hkey =>
    obtain ⟨a, b, ha, hb, hholds⟩ := eval_compare_true hc
    rw [hkey.operand] at ha
    obtain ⟨b', hfind, hb'⟩ := operand_value_ok hb
    cases hb'
    exact ⟨a, b, Except.ok.inj ha, hfind, hholds⟩
  | right hkey =>
    obtain ⟨b, a, hb, ha, hholds⟩ := eval_compare_true hc
    rw [hkey.operand] at ha
    obtain ⟨b', hfind, hb'⟩ := operand_value_ok hb
    cases hb'
    exact ⟨a, b, Except.ok.inj ha, hfind, Attribute.holds_eq_comm b a ▸ hholds⟩

/--
**A pinned attribute confines**: an expression that pins an attribute has an alias of a value such that in every item of
which the expression holds, whatever the aliases of values stand for, the attribute is there and equals that value. And
every expression holds of an item just if all of its conjuncts do.
-/
theorem pins_confines (e : Expr) (names : NameAliases) (key : String) :
    (e.pins names key = true → ∃ v ∈ e.valueAliases, ∀ values item, e.eval ⟨item, names, values⟩ = .ok true →
      ∃ a b, item.find key = some a ∧ values.find v = some b ∧ Attribute.holds .eq a b = true) ∧
    ∀ s : Scope, e.eval s = .ok true ↔ ∀ c ∈ e.conjuncts, c.eval s = .ok true := by
  refine ⟨fun hpins => ?_, fun s => eval_eq_true_iff⟩
  obtain ⟨c, hc, v, hfixes⟩ := pins_iff.1 hpins
  refine ⟨v, ?_, fun values item heval => hfixes.confines (eval_eq_true_iff.1 heval c hc)⟩
  exact List.mem_flatMap.2 ⟨.value v, operands_of_conjunct hc hfixes.mem_valueAliases, List.mem_cons_self⟩

/--
The equality stands deep in a chain of AND, its value first and its attribute under an alias; others stand below OR and
NOT, where they confine nothing.
-/
theorem pins_confines_nested :
    let equality : Expr := .compare (.value ":p") .eq (.path ⟨"#k", []⟩)
    let hidden : Expr := .or (.compare (.path ⟨"pk", []⟩) .eq (.value ":q")) (.call .attributeExists [.path ⟨"x", []⟩])
    let e : Expr := .and (.not hidden) (.and (.compare (.path ⟨"n", []⟩) .lt (.value ":m")) equality)
    let names : NameAliases := [("#k", "pk")]
    let values : ValueAliases := [(":m", .number "10"), (":p", .number "2.0"), (":q", .number "3")]
    let item : Item := [("n", .number "9"), ("pk", .number "2")]
    e.pins names "pk" = true ∧ hidden.pins names "pk" = false ∧ (Expr.not equality).pins names "pk" = false ∧
      e.eval ⟨item, names, values⟩ = .ok true ∧
      (∃ v ∈ e.valueAliases, ∃ a b, item.find "pk" = some a ∧ values.find v = some b ∧
        Attribute.holds .eq a b = true) ∧
      equality.eval ⟨item, names, values⟩ = .ok true := by
  intro equality hidden e names values item
  have hpins : e.pins names "pk" = true := by decide
  have heval : e.eval ⟨item, names, values⟩ = .ok true := by
    decide +kernel
  obtain ⟨hconfines, hconjuncts⟩ := pins_confines e names "pk"
  obtain ⟨v, hv, hall⟩ := hconfines hpins
  have hequality : equality ∈ e.conjuncts :=
    List.mem_cons_of_mem _ (List.mem_cons_of_mem _ List.mem_cons_self)
  exact ⟨hpins, by decide, by decide, heval, ⟨v, hv, hall values item heval⟩,
    (hconjuncts _).1 heval equality hequality⟩

end Expr

end RecordStore
