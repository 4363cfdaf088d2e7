import Mathlib.Algebra.Order.Field.Power
import Mathlib.Algebra.Order.Field.Rat
import Mathlib.Data.List.TakeWhile
import Mathlib.Tactic.FieldSimp
import Mathlib.Tactic.Ring
import RecordStore.Number.Shortest
import RecordStore.Proofs.Number.Digits

/-!
# Decimals and how they are spelt

`Spells cs q` says that a text without a sign is read as a numeral for `q` and never as a whole number. Whatever its
layout, the text of a decimal spells its value: **`Layout.spells_write`**.
-/

namespace RecordStore

/-- The number that a numeral denotes, its sign aside. -/
def Numeral.magnitude (n : Numeral) : ℚ :=
  n.digits * (10 : ℚ) ^ n.exponent

/-- The number that a decimal denotes. -/
def Decimal.value (d : Decimal) : ℚ :=
  d.digits * (10 : ℚ) ^ d.exponent

namespace Numeral

/-! ## Texts that spell numbers -/

/-- Digits, then something else in which a fraction and an exponent are read; together they denote `q`. -/
def Spells (cs : List Char) (q : ℚ) : Prop :=
  ∃ whole rest, cs = whole ++ rest ∧ whole ≠ [] ∧ whole.all Char.isDigit = true ∧
    (∃ c tail, rest = c :: tail ∧ c.isDigit = false) ∧
    ∃ e, exponent? (fraction rest).2 = some e ∧
      (ofDigits (whole ++ (fraction rest).1) : ℚ) * (10 : ℚ) ^ (e - ((fraction rest).1.length : ℤ)) = q

variable {cs ds rest : List Char} {q : ℚ} {negative : Bool}

theorem takeWhile_isDigit (hd : ds.all Char.isDigit = true) {c : Char} (hc : c.isDigit = false) (tail : List Char) :
    (ds ++ c :: tail).takeWhile Char.isDigit = ds := by
  rw [List.takeWhile_append_of_pos (List.all_eq_true.1 hd), List.takeWhile_cons_of_neg (by simp [hc]),
    List.append_nil]

theorem dropWhile_isDigit (hd : ds.all Char.isDigit = true) {c : Char} (hc : c.isDigit = false) (tail : List Char) :
    (ds ++ c :: tail).dropWhile Char.isDigit = c :: tail := by
  rw [List.dropWhile_append_of_pos (List.all_eq_true.1 hd), List.dropWhile_cons_of_neg (by simp [hc])]

/-- A sign is taken off a text that begins with a digit. -/
theorem takeSign_of_spells (h : Spells cs q) (negative : Bool) :
    takeSign ((if negative then ['-'] else []) ++ cs) = (negative, cs) := by
  obtain ⟨whole, rest, rfl, hne, hall, -⟩ := h
  cases negative with
  | true => rfl
  | false =>
    cases whole with
    | nil => exact absurd rfl hne
    | cons c whole =>
      rw [List.all_cons, Bool.and_eq_true] at hall
      exact takeSign_of_digits hall.1 (whole ++ rest)

/-- A text that spells a number is no whole number. -/
theorem integer?_of_spells (h : Spells cs q) (negative : Bool) :
    integer? ((if negative then ['-'] else []) ++ cs) = none := by
  have hnone : digits? cs = none := by
    obtain ⟨whole, rest, rfl, -, -, ⟨c, tail, rfl, hc⟩, -⟩ := h
    have hall : (whole ++ c :: tail).all Char.isDigit = false := by
      rw [List.all_append, List.all_cons, hc, Bool.false_and, Bool.and_false]
    rw [digits?, hall, Bool.not_false, Bool.or_true, if_pos rfl]
  rw [integer?, takeSign_of_spells h, hnone]

/-- **A text that spells a number**, with a sign before it or not, is read as a numeral for it. -/
theorem parse?_of_spells (h : Spells cs q) (negative : Bool) :
    ∃ n, parse? ((if negative then ['-'] else []) ++ cs) = some n ∧ n.negative = negative ∧ n.magnitude = q := by
  have hsign := takeSign_of_spells h negative
  obtain ⟨whole, rest, rfl, hne, hall, ⟨c, tail, rfl, hc⟩, e, he, hq⟩ := h
  refine ⟨⟨negative, _, _⟩, ?_, rfl, hq⟩
  have hwhole : whole.isEmpty = false := List.isEmpty_eq_false_iff.2 hne
  simp only [parse?, hsign, takeWhile_isDigit hall hc, dropWhile_isDigit hall hc, hwhole, Bool.false_and]
  rw [if_neg Bool.false_ne_true, he]
  rfl

/-! ## Digits, a point and digits -/

theorem fraction_point (hd : ds.all Char.isDigit = true) : fraction ('.' :: ds) = (ds, []) := by
  rw [fraction, List.takeWhile_eq_self_iff.2 (List.all_eq_true.1 hd),
    List.dropWhile_eq_nil_iff.2 (List.all_eq_true.1 hd)]

theorem fraction_point_exponent (hd : ds.all Char.isDigit = true) (tail : List Char) :
    fraction ('.' :: (ds ++ 'e' :: tail)) = (ds, 'e' :: tail) := by
  rw [fraction, takeWhile_isDigit hd (by decide), dropWhile_isDigit hd (by decide)]

/-- A whole part and a fraction spell a number. -/
theorem spells_point (whole ds : List Char) (hne : whole ≠ []) (hw : whole.all Char.isDigit = true)
    (hd : ds.all Char.isDigit = true) :
    Spells (whole ++ '.' :: ds) (ofDigits (whole ++ ds) * (10 : ℚ) ^ (-(ds.length : ℤ))) := by
  refine ⟨whole, '.' :: ds, rfl, hne, hw, ⟨'.', ds, rfl, rfl⟩, 0, ?_, ?_⟩
  · rw [fraction_point hd]
    rfl
  · rw [fraction_point hd, zero_sub]

/-- The exponent that is written with its sign is read. -/
theorem exponent?_signed (e : ℤ) :
    exponent? ('e' :: (if e < 0 then '-' else '+') :: Nat.toDigits 10 e.natAbs) = some e := by
  rw [exponent?, if_pos (Or.inl rfl)]
  have hdigits := digits?_toDigits e.natAbs
  by_cases h : e < 0
  · rw [if_pos h]
    simp only [takeSign, hdigits, Option.bind_eq_bind, Option.bind_some, Option.pure_def, Option.map_some, if_true]
    congr 1
    omega
  · rw [if_neg h]
    simp only [takeSign, hdigits, Option.bind_eq_bind, Option.bind_some, Option.pure_def, Option.map_some,
      Bool.false_eq_true, if_false]
    congr 1
    omega

/-- A digit, perhaps a fraction, and an exponent spell a number. -/
theorem spells_exponent {c : Char} (hc : c.isDigit = true) (hd : ds.all Char.isDigit = true) (e : ℤ) :
    Spells (c :: ((if ds = [] then [] else '.' :: ds) ++
        'e' :: (if e < 0 then '-' else '+') :: Nat.toDigits 10 e.natAbs))
      (ofDigits (c :: ds) * (10 : ℚ) ^ (e - (ds.length : ℤ))) := by
  refine ⟨[c], _, rfl, List.cons_ne_nil c [], by rw [List.all_cons, hc]; rfl, ?_⟩
  by_cases hnil : ds = []
  · subst hnil
    refine ⟨⟨'e', _, rfl, rfl⟩, e, ?_, rfl⟩
    exact exponent?_signed e
  · rw [if_neg hnil]
    show (∃ _ _, '.' :: (ds ++ _) = _ ∧ _) ∧ ∃ e', exponent? (fraction ('.' :: (ds ++ _))).2 = some e' ∧
      (ofDigits ([c] ++ (fraction ('.' :: (ds ++ _))).1) : ℚ) *
        (10 : ℚ) ^ (e' - ((fraction ('.' :: (ds ++ _))).1.length : ℤ)) = _
    rw [fraction_point_exponent hd]
    exact ⟨⟨'.', _, rfl, rfl⟩, e, exponent?_signed e, rfl⟩

end Numeral

/-! ## Layouts -/

namespace Layout

open Numeral (Spells ofDigits ofDigits_append ofDigits_zeros)

variable {ds : List Char}

/-- Only zeros are taken off the end. -/
theorem eq_stripZeros_append (ds : List Char) : ∃ k, ds = stripZeros ds ++ List.replicate k '0' := by
  refine ⟨(ds.reverse.takeWhile (· == '0')).length, ?_⟩
  have hzeros : ds.reverse.takeWhile (· == '0') =
      List.replicate (ds.reverse.takeWhile (· == '0')).length '0' := by
    apply List.eq_replicate_of_mem
    intro c hc
    exact eq_of_beq (@List.mem_takeWhile_imp _ (· == '0') _ _ hc)
  have hsplit := congrArg List.reverse (@List.takeWhile_append_dropWhile _ (· == '0') ds.reverse)
  rw [List.reverse_append, List.reverse_reverse, hzeros, List.reverse_replicate] at hsplit
  exact hsplit.symm

/-- What is left of the digits of a number without the zeros at their end. -/
theorem stripZeros_toDigits {n : ℕ} (hn : n ≠ 0) :
    stripZeros (Nat.toDigits 10 n) ≠ [] ∧ (stripZeros (Nat.toDigits 10 n)).all Char.isDigit = true ∧
      ∃ k, (Nat.toDigits 10 n).length = (stripZeros (Nat.toDigits 10 n)).length + k ∧
        n = ofDigits (stripZeros (Nat.toDigits 10 n)) * 10 ^ k := by
  obtain ⟨k, hk⟩ := eq_stripZeros_append (Nat.toDigits 10 n)
  generalize stripZeros (Nat.toDigits 10 n) = ds at hk ⊢
  have hlength : (Nat.toDigits 10 n).length = ds.length + k := by
    rw [hk, List.length_append, List.length_replicate]
  have hvalue : n = ofDigits ds * 10 ^ k := by
    have hn' := Numeral.ofDigits_toDigits n
    rw [hk, ofDigits_append, ofDigits_zeros, List.length_replicate, Nat.add_zero] at hn'
    exact hn'.symm
  have hall := Numeral.all_isDigit_toDigits n
  rw [hk, List.all_append, Bool.and_eq_true] at hall
  refine ⟨?_, hall.1, k, hlength, hvalue⟩
  rintro rfl
  exact hn (hvalue.trans (Nat.zero_mul _))

theorem all_isDigit_zeros (k : ℕ) : (List.replicate k '0').all Char.isDigit = true := by
  rw [List.all_eq_true]
  intro c hc
  rw [List.eq_of_mem_replicate hc]
  rfl

/-- Digits after the point, with zeros before them. -/
theorem spells_zeros_before (hd : ds.all Char.isDigit = true) (k : ℕ) :
    Spells ('0' :: '.' :: (List.replicate k '0' ++ ds)) (ofDigits ds * (10 : ℚ) ^ (-((k + ds.length : ℕ) : ℤ))) := by
  have hspells := Numeral.spells_point ['0'] (List.replicate k '0' ++ ds) (List.cons_ne_nil _ _) rfl
    (by rw [List.all_append, all_isDigit_zeros, hd]; rfl)
  have hzero : ofDigits (['0'] ++ (List.replicate k '0' ++ ds)) = ofDigits ds := by
    rw [ofDigits_append, ofDigits_append, ofDigits_zeros, show ofDigits ['0'] = 0 from rfl]
    omega
  rw [hzero, List.length_append, List.length_replicate] at hspells
  exact hspells

/-- Digits before the point, with zeros after them. -/
theorem spells_zeros_after (hne : ds ≠ []) (hd : ds.all Char.isDigit = true) (k : ℕ) :
    Spells (ds ++ List.replicate k '0' ++ '.' :: ['0']) (ofDigits ds * (10 : ℚ) ^ (k : ℤ)) := by
  have hspells := Numeral.spells_point (ds ++ List.replicate k '0') ['0'] (List.append_ne_nil_of_left_ne_nil hne _)
    (by rw [List.all_append, all_isDigit_zeros, hd]; rfl) rfl
  have hvalue : (ofDigits (ds ++ List.replicate k '0' ++ ['0']) : ℚ) * (10 : ℚ) ^ (-(['0'].length : ℤ)) =
      ofDigits ds * (10 : ℚ) ^ (k : ℤ) := by
    rw [ofDigits_append, ofDigits_append, ofDigits_zeros, show ofDigits ['0'] = 0 from rfl, zpow_natCast,
      List.length_replicate, List.length_singleton]
    push_cast
    field_simp
    ring
  rw [hvalue] at hspells
  exact hspells

/-- Digits on both sides of the point. -/
theorem spells_digits_around (hd : ds.all Char.isDigit = true) {k : ℕ} (hk : 0 < k) (hlen : k < ds.length) :
    Spells (ds.take k ++ '.' :: ds.drop k) (ofDigits ds * (10 : ℚ) ^ (-((ds.length - k : ℕ) : ℤ))) := by
  have htake : ds.take k ≠ [] := by
    rw [← List.length_pos_iff, List.length_take]
    omega
  have hsplit : ds.take k ++ ds.drop k = ds := List.take_append_drop _ _
  have hall := hd
  rw [← hsplit, List.all_append, Bool.and_eq_true] at hall
  have hspells := Numeral.spells_point _ _ htake hall.1 hall.2
  rw [hsplit, List.length_drop] at hspells
  exact hspells

/-- Digits in positions spell a number, the first with the exponent `e`. -/
theorem spells_positional (hne : ds ≠ []) (hd : ds.all Char.isDigit = true) (e : ℤ) :
    Spells (positional ds e) (ofDigits ds * (10 : ℚ) ^ (e + 1 - ds.length)) := by
  by_cases he : e < 0
  · have hexp : e + 1 - (ds.length : ℤ) = -(((-e - 1).toNat + ds.length : ℕ) : ℤ) := by omega
    rw [positional, if_pos he, hexp]
    exact spells_zeros_before hd _
  · rw [positional, if_neg he]
    by_cases hlen : ds.length ≤ e.toNat + 1
    · have hexp : e + 1 - (ds.length : ℤ) = ((e.toNat + 1 - ds.length : ℕ) : ℤ) := by omega
      simp only [List.take_of_length_le hlen, List.drop_of_length_le hlen, List.isEmpty_nil, if_true]
      rw [hexp]
      exact spells_zeros_after hne hd _
    · have hexp : e + 1 - (ds.length : ℤ) = -((ds.length - (e.toNat + 1) : ℕ) : ℤ) := by omega
      have hdrop : (ds.drop (e.toNat + 1)).isEmpty = false := by
        rw [List.isEmpty_eq_false_iff, ← List.length_pos_iff, List.length_drop]
        omega
      have hzeros : e.toNat + 1 - ds.length = 0 := by omega
      simp only [hdrop, hzeros, List.replicate_zero, List.append_nil, Bool.false_eq_true, if_false]
      rw [hexp]
      exact spells_digits_around hd (by omega) (by omega)

/-- One digit, a fraction and an exponent `e` spell a number. -/
theorem spells_scientific (hne : ds ≠ []) (hd : ds.all Char.isDigit = true) (e : ℤ) :
    Spells (scientific ds e) (ofDigits ds * (10 : ℚ) ^ (e + 1 - ds.length)) := by
  cases ds with
  | nil => exact absurd rfl hne
  | cons c ds =>
    rw [List.all_cons, Bool.and_eq_true] at hd
    have hspells := Numeral.spells_exponent hd.1 hd.2 e
    have hexp : e + 1 - ((c :: ds).length : ℤ) = e - ds.length := by
      rw [List.length_cons]
      omega
    have hif : (if (c :: ds).length ≤ 1 then [] else '.' :: (c :: ds).drop 1) = if ds = [] then [] else '.' :: ds := by
      cases ds <;> rfl
    rw [hexp, scientific, hif]
    exact hspells

/-- **The text of a decimal** spells its value. -/
theorem spells_write (layout : Layout) {d : Decimal} (h : d.digits ≠ 0) : Spells (layout.write d) d.value := by
  obtain ⟨hne, hd, k, hlength, hvalue⟩ := stripZeros_toDigits h
  have hq : d.value = ofDigits (stripZeros (Nat.toDigits 10 d.digits)) *
      (10 : ℚ) ^ (d.exponent + (Nat.toDigits 10 d.digits).length - 1 + 1 -
        (stripZeros (Nat.toDigits 10 d.digits)).length) := by
    have hexp : d.exponent + (Nat.toDigits 10 d.digits).length - 1 + 1 -
        (stripZeros (Nat.toDigits 10 d.digits)).length = k + d.exponent := by
      omega
    have hdigits : (d.digits : ℚ) = ofDigits (stripZeros (Nat.toDigits 10 d.digits)) * (10 : ℚ) ^ k := by
      exact_mod_cast hvalue
    rw [Decimal.value, hexp, hdigits, zpow_add₀ (by norm_num), zpow_natCast, mul_assoc]
  rw [hq, write]
  split
  · exact spells_positional hne hd _
  · exact spells_scientific hne hd _

end Layout

end RecordStore
