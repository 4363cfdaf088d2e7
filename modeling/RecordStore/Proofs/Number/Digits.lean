import Mathlib.Algebra.GroupWithZero.Nat
import RecordStore.Json.Basic

/-!
# Digits

What is known of the digits that a number is written with: `ofDigits_toDigits` reads them back, and
**`Numeral.integer?_toString`** reads back every whole number that a document can hold.
-/

namespace RecordStore.Numeral

theorem ofDigits_eq (ds : List Char) : ofDigits ds = Nat.ofDigitChars 10 ds 0 :=
  Nat.ofDigitChars_eq_foldl.symm

theorem ofDigits_toDigits (n : Nat) : ofDigits (Nat.toDigits 10 n) = n := by
  rw [ofDigits_eq, Nat.ofDigitChars_ten_toDigits]

/-- Digits before others count for their number times a power of ten. -/
theorem ofDigits_append (ds es : List Char) : ofDigits (ds ++ es) = ofDigits ds * 10 ^ es.length + ofDigits es := by
  rw [ofDigits_eq, Nat.ofDigitChars_append, Nat.ofDigitChars_eq_ofDigitChars_zero, ofDigits_eq, ofDigits_eq,
    Nat.mul_comm]

theorem ofDigits_zeros (n : Nat) : ofDigits (List.replicate n '0') = 0 := by
  rw [ofDigits_eq, Nat.ofDigitChars_replicate_zero, Nat.mul_zero]

theorem all_isDigit_toDigits (n : Nat) : (Nat.toDigits 10 n).all Char.isDigit = true := by
  rw [List.all_eq_true]
  intro c hc
  exact Nat.isDigit_of_mem_toDigits (by omega) (by omega) hc

theorem digits?_toDigits (n : Nat) : digits? (Nat.toDigits 10 n) = some n := by
  have hne : (Nat.toDigits 10 n).isEmpty = false := by
    rw [List.isEmpty_eq_false_iff]
    exact Nat.toDigits_ne_nil
  rw [digits?, hne, all_isDigit_toDigits, ofDigits_toDigits]
  rfl

/-- A text that begins with a digit has no sign. -/
theorem takeSign_of_digits {c : Char} (hc : c.isDigit = true) (cs : List Char) :
    takeSign (c :: cs) = (false, c :: cs) := by
  rw [takeSign]
  · rintro _ ⟨⟩
    cases hc
  · rintro _ ⟨⟩
    cases hc

theorem takeSign_toDigits (n : Nat) : takeSign (Nat.toDigits 10 n) = (false, Nat.toDigits 10 n) := by
  have hd := all_isDigit_toDigits n
  cases h : Nat.toDigits 10 n with
  | nil => exact absurd h Nat.toDigits_ne_nil
  | cons c cs =>
    rw [h, List.all_cons, Bool.and_eq_true] at hd
    exact takeSign_of_digits hd.1 cs

/-- **A whole number** that a document can hold is read back from its text. -/
theorem integer?_toString {n : Int} (h : JsonNumber.fits n = true) : integer? (toString n).toList = some n := by
  rw [JsonNumber.fits, Bool.and_eq_true, decide_eq_true_eq, decide_eq_true_eq] at h
  rw [Int.toString_eq_repr]
  cases n with
  | ofNat n =>
    have hfit : n < natBound := by
      have hn : (n : Int) < natBound := h.2
      omega
    rw [Int.repr, Nat.toList_repr, integer?, takeSign_toDigits, digits?_toDigits]
    dsimp only
    rw [if_neg Bool.false_ne_true, if_pos hfit]
    rfl
  | negSucc n =>
    have hfit : n + 1 ≤ intBound := by
      have := h.1
      omega
    have hsign : takeSign ("-".toList ++ Nat.toDigits 10 (n + 1)) = (true, Nat.toDigits 10 (n + 1)) := rfl
    rw [Int.repr, String.toList_append, Nat.toList_repr, integer?, hsign, digits?_toDigits]
    dsimp only
    rw [if_pos rfl, if_pos hfit]
    rfl

end RecordStore.Numeral
