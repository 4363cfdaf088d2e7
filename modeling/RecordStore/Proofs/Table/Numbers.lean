import RecordStore.Expression.Eval
import RecordStore.Proofs.Number.Monotone
import RecordStore.Proofs.Table.Contents
import RecordStore.Proofs.Table.Placing

/-!
# Numbers as keys and in conditions

Numerals are compared as the doubles nearest to them, in conditions by value and as sort keys by pattern. Two numerals
of different numbers are never taken in reverse order, but they are told apart only if their doubles differ, and a put
replaces an item whose sort key has the double of its own: **`numbers_told_apart_iff`**.
-/

namespace RecordStore

open Position (comparePart)

variable {a b : String} {m n : Numeral}

/-! ## What numerals are read as -/

theorem Binary64.parse?_of_numeral (h : Numeral.parse? a.toList = some m) :
    Binary64.parse? a.toList = some (Binary64.ofNumeral m) := by
  rw [Binary64.parse?, h]

namespace SortKey

theorem double_of_numeral (h : Numeral.parse? a.toList = some m) : double a = Binary64.ofNumeral m := by
  rw [double, Binary64.parse?_of_numeral h]
  rfl

theorem compare_number (a b : String) :
    compare (.number a) (.number b) = Ord.compare (double a).rank (double b).rank := rfl

theorem compare_number_eq_iff : compare (.number a) (.number b) = .eq ↔ double a = double b := by
  constructor
  · exact double_eq_of_compare
  · intro h
    rw [compare_number, h]
    exact Std.ReflCmp.compare_self

end SortKey

open SortKey (double)

namespace Attribute

/-- Two numerals are compared by the values of their doubles. -/
theorem holds_number (ha : Numeral.parse? a.toList = some m) (hb : Numeral.parse? b.toList = some n) (op : Comparison) :
    holds op (.number a) (.number b) = op.holds (compare (double a).signedPlace (double b).signedPlace) := by
  have horder : order? (.number a) (.number b) = some (compare (double a).signedPlace (double b).signedPlace) := by
    rw [order?, Binary64.parse?_of_numeral ha, Binary64.parse?_of_numeral hb, SortKey.double_of_numeral ha,
      SortKey.double_of_numeral hb]
    dsimp only
    rw [Binary64.partialCompare, Binary64.isNaN_ofNumeral, Binary64.isNaN_ofNumeral]
    rfl
  have hscalar : ((number a).isScalar && decide ((number a).type = (number b).type)) = true := rfl
  unfold holds
  rw [if_pos hscalar, horder]

end Attribute

/-! ## Numbers in order -/

/-- Conditions and sort keys take two numerals as the first being less than the second. -/
structure InOrder (a b : String) : Prop where
  holds : ∀ op, Attribute.holds op (.number a) (.number b) = op.holds .lt
  holds_swap : ∀ op, Attribute.holds op (.number b) (.number a) = op.holds .gt
  compare : SortKey.compare (.number a) (.number b) = .lt
  compare_swap : SortKey.compare (.number b) (.number a) = .gt

/-- Doubles of different values have different places. -/
theorem double_ne_of_signedPlace (h : (double a).signedPlace ≠ (double b).signedPlace) : double a ≠ double b :=
  fun heq => h (heq ▸ rfl)

/-- Numbers whose doubles differ in value are taken in their order. -/
theorem inOrder_of_signedPlace (ha : Numeral.parse? a.toList = some m) (hb : Numeral.parse? b.toList = some n)
    (hlt : m.value < n.value) (hne : (double a).signedPlace ≠ (double b).signedPlace) : InOrder a b := by
  have hplace : (double a).signedPlace ≤ (double b).signedPlace := by
    rw [SortKey.double_of_numeral ha, SortKey.double_of_numeral hb]
    exact Binary64.signedPlace_mono hlt.le
  have hrank : (double a).rank ≤ (double b).rank := by
    rw [SortKey.double_of_numeral ha, SortKey.double_of_numeral hb]
    exact Binary64.rank_mono hlt
  have hplaceLt : (double a).signedPlace < (double b).signedPlace := lt_of_le_of_ne hplace hne
  have hrankLt : (double a).rank < (double b).rank :=
    lt_of_le_of_ne hrank fun heq => double_ne_of_signedPlace hne (Binary64.rank_injective heq)
  constructor
  · intro op
    rw [Attribute.holds_number ha hb, compare_lt_iff_lt.2 hplaceLt]
  · intro op
    rw [Attribute.holds_number hb ha, compare_gt_iff_gt.2 hplaceLt]
  · rw [SortKey.compare_number, compare_lt_iff_lt.2 hrankLt]
  · rw [SortKey.compare_number, compare_gt_iff_gt.2 hrankLt]

/-- Numbers whose doubles do not differ in value are taken as equal. -/
theorem holds_of_signedPlace (ha : Numeral.parse? a.toList = some m) (hb : Numeral.parse? b.toList = some n)
    (heq : (double a).signedPlace = (double b).signedPlace) (op : Comparison) :
    Attribute.holds op (.number a) (.number b) = op.holds .eq := by
  rw [Attribute.holds_number ha hb, heq, compare_eq_iff_eq.2 rfl]

/-! ## Sort keys -/

namespace Table

variable {t t' : Table} {item stored : Item} {old : Option Item} {v : Attribute}

/-- **A put replaces** an item of its partition just if the doubles of their sort keys are the same. -/
theorem Sound.put_replaces_iff (hs : t.Sound) (hput : t.put item = .ok (old, t')) (hstored : stored ∈ t.items)
    (ha : t.address stored = .ok (v, some (.number a))) (hb : t.address item = .ok (v, some (.number b))) :
    old = some stored ↔ double a = double b := by
  rw [put_eq_at? hput hb, hs.at?_eq_some_iff, ← SortKey.compare_number_eq_iff]
  constructor
  · rintro ⟨-, address, haddress, hsame⟩
    rw [ha] at haddress
    cases haddress
    exact hsame.2
  · intro hcompare
    exact ⟨hstored, _, ha, rfl, hcompare⟩

end Table

/--
**When numbers are told apart.** Numerals of different numbers are taken in the order of these just if their doubles
differ in value, as they do if both numbers are finite doubles; if not, they are taken as equal. A put replaces an item
with another number as its sort key just if both numbers have one double.
-/
theorem numbers_told_apart_iff (ha : Numeral.parse? a.toList = some m) (hb : Numeral.parse? b.toList = some n)
    (hlt : m.value < n.value) :
    (InOrder a b ↔ (double a).signedPlace ≠ (double b).signedPlace) ∧
    (¬ InOrder a b → ∀ op, Attribute.holds op (.number a) (.number b) = op.holds .eq) ∧
    (∀ x y : Binary64, x.isFinite = true → y.isFinite = true → m.magnitude = x.value → n.magnitude = y.value →
      InOrder a b) ∧
    ∀ {shape : TableShape} {t t' : Table} {item stored : Item} {old : Option Item} {v : Attribute} {c d : String},
      (c = a ∧ d = b ∨ c = b ∧ d = a) → t.Reached shape → t.put item = .ok (old, t') → stored ∈ t.items →
        t.address stored = .ok (v, some (.number c)) → t.address item = .ok (v, some (.number d)) →
        (old = some stored ↔ double a = double b) := by
  have hiff : InOrder a b ↔ (double a).signedPlace ≠ (double b).signedPlace := by
    refine ⟨fun h heq => ?_, inOrder_of_signedPlace ha hb hlt⟩
    have hless := h.holds .lt
    rw [holds_of_signedPlace ha hb heq] at hless
    cases hless
  refine ⟨hiff, fun hnot op => ?_, fun x y hx hy hm hn => ?_, ?_⟩
  · exact holds_of_signedPlace ha hb (not_not.1 (mt hiff.2 hnot)) op
  · refine hiff.2 fun heq => hlt.ne ?_
    rw [SortKey.double_of_numeral ha, SortKey.double_of_numeral hb] at heq
    exact Binary64.value_eq_of_signedPlace hx hy hm hn heq
  · rintro shape t t' item stored old v c d (⟨rfl, rfl⟩ | ⟨rfl, rfl⟩) hr hput hstored hc hd
    · exact hr.sound.put_replaces_iff hput hstored hc hd
    · rw [hr.sound.put_replaces_iff hput hstored hc hd, eq_comm]

/-- Two numerals that are no doubles, in their order. -/
theorem numbers_told_apart_iff_tenths : Numeral.parse? "0.1".toList = some ⟨false, 1, -1⟩ ∧
    Numeral.parse? "2e-1".toList = some ⟨false, 2, -1⟩ ∧ InOrder "0.1" "2e-1" := by
  have ha : Numeral.parse? "0.1".toList = some ⟨false, 1, -1⟩ := rfl
  have hb : Numeral.parse? "2e-1".toList = some ⟨false, 2, -1⟩ := rfl
  have hlt : (⟨false, 1, -1⟩ : Numeral).value < (⟨false, 2, -1⟩ : Numeral).value := by
    norm_num [Numeral.value, Numeral.magnitude]
  exact ⟨ha, hb, (numbers_told_apart_iff ha hb hlt).1.2 (by decide +kernel)⟩

/-- Two whole numbers of one double: a condition takes them as equal, and a put of the second replaces the first. -/
theorem numbers_merged :
    let shape : TableShape := ⟨"t", ⟨⟨"p", .text⟩, some ⟨"n", .number⟩⟩, []⟩
    let first : Item := [("n", .number "9007199254740992"), ("p", .text "a")]
    let second : Item := [("n", .number "9007199254740993"), ("p", .text "a")]
    (∃ m n, Numeral.parse? "9007199254740992".toList = some m ∧ Numeral.parse? "9007199254740993".toList = some n ∧
      m.value < n.value) ∧
    Attribute.holds .eq (.number "9007199254740992") (.number "9007199254740993") = true ∧
    Attribute.holds .ne (.number "9007199254740992") (.number "9007199254740993") = false ∧
    SortKey.compare (.number "9007199254740992") (.number "9007199254740993") = .eq ∧
    ∃ t t', (Table.empty shape).put first = .ok (none, t) ∧ t.put second = .ok (some first, t') ∧ t'.count = 1 := by
  have hlt : (⟨false, 9007199254740992, 0⟩ : Numeral).value < (⟨false, 9007199254740993, 0⟩ : Numeral).value := by
    norm_num [Numeral.value, Numeral.magnitude]
  exact ⟨⟨_, _, rfl, rfl, hlt⟩, by decide +kernel, by decide +kernel, by decide +kernel, _, _, rfl, rfl, rfl⟩

end RecordStore
