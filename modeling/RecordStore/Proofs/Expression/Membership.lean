import RecordStore.Proofs.Expression.Checking
import RecordStore.Proofs.Expression.Equality

/-!
# Membership and equality

A list or a set has entries, each of which is a value of its own (`Attribute.entries?`). `contains` looks for the very
value among them (`Attribute.hasPart_iff_mem`), whereas IN compares, and equality of numbers is that of their doubles
(`Attribute.holds_eq_number`); all other values are equal only if they are the same (`Attribute.holds_eq_iff_eq`).

**`Expr.contains_eq_among_iff`**: so the two agree on every value but a number, and on a number just if no entry is
equal to it in another spelling, or, where it is equal to nothing at all, if it is no entry.
-/

namespace RecordStore

namespace Attribute

variable {c v : Attribute} {es : List Attribute}

/-! ## Entries -/

/-- The entries of a list or a set, each as a value of its own. -/
def entries? : Attribute → Option (List Attribute)
  | .texts ss => some (ss.map .text)
  | .numbers ns => some (ns.map .number)
  | .binaries bss => some (bss.map .binary)
  | .list items => some items
  | _ => none

/-- A list or a set has a value in it just if this very value is an entry. -/
theorem hasPart_iff_mem (h : c.entries? = some es) : c.hasPart v = true ↔ v ∈ es := by
  cases c with
  | texts | numbers | binaries => cases h; cases v <;> simp [hasPart]
  | list items => cases h; simp [hasPart]
  | text | number | binary | flag | null | map => cases h

/-! ## Equal entries -/

/-- Of some values one equals a number just if a number in the same place is among them. -/
theorem exists_equal_number (n : String) :
    (∃ e ∈ es, holds .eq e (.number n) = true) ↔ ∃ m i, .number m ∈ es ∧ place? m = some i ∧ place? n = some i := by
  constructor
  · rintro ⟨e, he, hequal⟩
    by_cases hnumber : ∃ m, e = .number m
    · obtain ⟨m, rfl⟩ := hnumber
      obtain ⟨i, hm, hn⟩ := (holds_eq_number m n).1 hequal
      exact ⟨m, i, he, hm, hn⟩
    · have hne : ¬ (e.type = .number ∧ (number n).type = .number) := by
        rintro ⟨htype, -⟩
        cases e <;> first | exact hnumber ⟨_, rfl⟩ | cases htype
      exact absurd ⟨n, (holds_eq_iff_eq hne).1 hequal⟩ hnumber
  · rintro ⟨m, i, he, hm, hn⟩
    exact ⟨.number m, he, (holds_eq_number m n).2 ⟨i, hm, hn⟩⟩

/-- Of some values one equals a value that is no number just if it is this very value. -/
theorem exists_equal_iff_mem (hv : v.type ≠ .number) : (∃ e ∈ es, holds .eq e v = true) ↔ v ∈ es := by
  have hequal : ∀ e, holds .eq e v = true ↔ e = v := fun e => holds_eq_iff_eq fun h => hv h.2
  simp only [hequal, exists_eq_right]

/-- The very value is among some values just if an equal one is: always, unless it is a number. -/
theorem mem_iff_exists_equal : (v ∈ es ↔ ∃ e ∈ es, holds .eq e v = true) ↔ ∀ n, v = .number n →
    (place? n = none → v ∉ es) ∧ ∀ m i, .number m ∈ es → place? m = some i → place? n = some i → v ∈ es := by
  by_cases hnumber : ∃ n, v = .number n
  · obtain ⟨n, rfl⟩ := hnumber
    rw [exists_equal_number]
    constructor
    · rintro hiff _ ⟨⟩
      refine ⟨fun hplace hmem => ?_, fun m i hm hmi hni => hiff.2 ⟨m, i, hm, hmi, hni⟩⟩
      obtain ⟨m, i, -, -, hni⟩ := hiff.1 hmem
      rw [hplace] at hni
      cases hni
    · intro h
      obtain ⟨hnone, hother⟩ := h n rfl
      refine ⟨fun hmem => ?_, fun ⟨m, i, hm, hmi, hni⟩ => hother m i hm hmi hni⟩
      obtain ⟨i, hi⟩ := Option.ne_none_iff_exists'.1 fun hplace => hnone hplace hmem
      exact ⟨n, i, hmem, hi, hi⟩
  · have hv : v.type ≠ .number := by
      intro htype
      cases v <;> first | exact hnumber ⟨_, rfl⟩ | cases htype
    exact ⟨fun _ n hn => absurd ⟨n, hn⟩ hnumber, fun _ => (exists_equal_iff_mem hv).symm⟩

end Attribute

namespace Scope

variable {s : Scope}

/-- Operands that are there are looked through for one that equals a value. -/
theorem isAmong_eq (a : Attribute) {os : List Operand} {es : List Attribute}
    (h : List.Forall₂ (fun o e => s.operand o = .ok (some e)) os es) :
    s.isAmong a os = .ok (es.any fun e => Attribute.holds .eq e a) := by
  induction h with
  | nil => rfl
  | @cons o e os es ho _ ih =>
    rw [isAmong, ho]
    change (if Attribute.holds .eq a e then Except.ok true else s.isAmong a os) = _
    rw [ih, List.any_cons, Attribute.holds_eq_comm]
    cases Attribute.holds .eq e a <;> rfl

end Scope

namespace Expr

open Attribute (place?)

variable {s : Scope} {p : Path} {name : String} {c v : Attribute} {es : List Attribute}

/-- `contains` of a list or a set is whether the very value is an entry. -/
theorem eval_contains (hpath : s.lookup p = some c) (hentries : c.entries? = some es)
    (hvalue : s.values.find name = some v) :
    (Expr.call .contains [.path p, .value name]).eval s = .ok (decide (v ∈ es)) := by
  change (do let a ← s.operand (.value name); Scope.apply .contains (s.lookup p) a) = _
  rw [Scope.operand_value hvalue, hpath]
  change Except.ok (c.hasPart v) = _
  rw [Bool.eq_iff_iff.2 ((Attribute.hasPart_iff_mem hentries).trans decide_eq_true_iff.symm)]

/-- IN is whether any of the values that are there equals the value. -/
theorem eval_among {os : List Operand} (hvalue : s.values.find name = some v)
    (hos : List.Forall₂ (fun o e => s.operand o = .ok (some e)) os es) :
    (Expr.among (.value name) os).eval s = .ok (es.any fun e => Attribute.holds .eq e v) := by
  rw [eval, Scope.operand_value hvalue]
  exact Scope.isAmong_eq v hos

/-- An equation of an operand with a value holds of an operand that is there if the two are equal. -/
theorem eval_equation {o : Operand} {e : Attribute} (hvalue : s.values.find name = some v)
    (ho : s.operand o = .ok (some e)) :
    (Expr.compare o .eq (.value name)).eval s = .ok (Attribute.holds .eq e v) := by
  rw [eval, ho, Scope.operand_value hvalue]
  rfl

/-- Of the equations of some operands with a value one holds just if one of what is there equals it. -/
theorem exists_equation_iff {os : List Operand} (hvalue : s.values.find name = some v)
    (hos : List.Forall₂ (fun o e => s.operand o = .ok (some e)) os es) :
    (∃ o ∈ os, (Expr.compare o .eq (.value name)).eval s = .ok true) ↔
      ∃ e ∈ es, Attribute.holds .eq e v = true := by
  induction hos with
  | nil => simp
  | cons ho _ ih =>
    rw [List.exists_mem_cons_iff, List.exists_mem_cons_iff, ih, eval_equation hvalue ho, Except.ok.injEq]

/--
**Membership and equality.** `contains` of a list or a set is whether the very value is an entry. For operands in which
the entries are found, IN is whether one of them equals the value, as it does if one of the equations holds. The two
agree unless the value is a number, and then just if it is no entry where its text is not read as a number, and an
entry wherever another one is a number in its place.
-/
theorem contains_eq_among_iff (hpath : s.lookup p = some c) (hentries : c.entries? = some es)
    (hvalue : s.values.find name = some v) :
    ∃ found equal : Bool,
      (Expr.call .contains [.path p, .value name]).eval s = .ok found ∧ (found = true ↔ v ∈ es) ∧
      (equal = true ↔ ∃ e ∈ es, Attribute.holds .eq e v = true) ∧
      (∀ os, List.Forall₂ (fun o e => s.operand o = .ok (some e)) os es →
        (Expr.among (.value name) os).eval s = .ok equal ∧
        (equal = true ↔ ∃ o ∈ os, (Expr.compare o .eq (.value name)).eval s = .ok true)) ∧
      (found = equal ↔ ∀ n, v = .number n → (place? n = none → v ∉ es) ∧
        ∀ m i, .number m ∈ es → place? m = some i → place? n = some i → v ∈ es) := by
  have hequal : (es.any fun e => Attribute.holds .eq e v) = true ↔ ∃ e ∈ es, Attribute.holds .eq e v = true :=
    List.any_eq_true
  refine ⟨decide (v ∈ es), es.any fun e => Attribute.holds .eq e v, eval_contains hpath hentries hvalue,
    decide_eq_true_iff, hequal, fun os hos => ?_, ?_⟩
  · exact ⟨eval_among hvalue hos, hequal.trans (exists_equation_iff hvalue hos).symm⟩
  · rw [Bool.eq_iff_iff, decide_eq_true_iff, hequal]
    exact Attribute.mem_iff_exists_equal

/-- The entries of a list are looked up by their index: a number is found in the spelling that it has there. -/
theorem contains_eq_among_iff_indexed :
    let s : Scope := ⟨[("tags", .list [.number "1", .text "2.0", .number "2.0"])], [], [(":v", .number "2.0")]⟩
    let entry (i : Nat) : Operand := .path ⟨"tags", [.index i]⟩
    (Expr.call .contains [.path ⟨"tags", []⟩, .value ":v"]).eval s = .ok true ∧
      (Expr.among (.value ":v") [entry 0, entry 1, entry 2]).eval s = .ok true ∧
      ∃ o ∈ [entry 0, entry 1, entry 2], (Expr.compare o .eq (.value ":v")).eval s = .ok true := by
  intro s entry
  obtain ⟨found, equal, hcontains, hfound, -, hamong, hagree⟩ :=
    @contains_eq_among_iff s ⟨"tags", []⟩ ":v" _ _ _ rfl rfl rfl
  have hmem : Attribute.number "2.0" ∈ [Attribute.number "1", .text "2.0", .number "2.0"] := by decide
  have hplace : place? "2.0" ≠ none := by decide +kernel
  obtain rfl : found = true := hfound.2 hmem
  obtain rfl : true = equal := hagree.2 fun n hn => by
    cases hn
    exact ⟨fun h => absurd h hplace, fun _ _ _ _ _ => hmem⟩
  obtain ⟨hin, hequation⟩ := hamong [entry 0, entry 1, entry 2] (.cons rfl (.cons rfl (.cons rfl .nil)))
  exact ⟨hcontains, hin, hequation.1 rfl⟩

/--
A set of numbers has in it a number that is equal to one of its entries, and `contains` misses it in another spelling.
What is not a number is equal to nothing, and `contains` finds it.
-/
theorem contains_misses :
    let contains : Expr := .call .contains [.path ⟨"tags", []⟩, .value ":v"]
    let among : Expr := .among (.value ":v") [.value ":entry"]
    let equation : Expr := .compare (.value ":entry") .eq (.value ":v")
    let spelled : Scope :=
      ⟨[("tags", .numbers ["1"])], [], [(":entry", .number "1"), (":v", .number "1.0")]⟩
    let unreal : Scope :=
      ⟨[("tags", .numbers ["nan"])], [], [(":entry", .number "nan"), (":v", .number "nan")]⟩
    (contains.eval spelled = .ok false ∧ among.eval spelled = .ok true ∧ equation.eval spelled = .ok true) ∧
      contains.eval unreal = .ok true ∧ among.eval unreal = .ok false ∧ equation.eval unreal = .ok false := by
  decide +kernel

end Expr

end RecordStore
