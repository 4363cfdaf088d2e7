import RecordStore.Proofs.Number.Rounding
import RecordStore.Proofs.Number.Spelling

/-!
# The text of a double reads back

The shortest decimal of a positive double lies in its interval (`Binary64.covers_shortest`), and a numeral whose value
lies there is read as the double (`Binary64.ofNumeral_of_covers`). Hence **`Binary64.parse?_chars`**: every finite
double is read back from its text, which is never that of a whole number (`Binary64.integer?_chars`).
-/

namespace RecordStore.Binary64

variable {x : Binary64} {num den : ℕ} {e : ℤ} {q : ℚ}

theorem ten_zpow_pos (e : ℤ) : (0 : ℚ) < (10 : ℚ) ^ e := zpow_pos (by norm_num) e

/-! ## Reading numerals -/

theorem two_zpow_le_ten_zpow (k : ℕ) : (2 : ℚ) ^ (3 * (k : ℤ)) ≤ (10 : ℚ) ^ (k : ℤ) := by
  rw [zpow_mul, zpow_natCast, zpow_natCast]
  exact pow_le_pow_left₀ (by positivity) (by norm_num) k

theorem ten_zpow_neg_le (k : ℕ) : (10 : ℚ) ^ (-(k : ℤ)) ≤ (2 : ℚ) ^ (-(3 * (k : ℤ))) := by
  rw [zpow_neg, zpow_neg]
  exact inv_anti₀ (two_zpow_pos _) (two_zpow_le_ten_zpow k)

/-- What a positive double covers is no less than half of the least one. -/
theorem Covers.ge (h : x.Covers q) (hx : 0 < x.place) : (2 : ℚ) ^ (-1075 : ℤ) ≤ q := by
  have hm : (1 : ℚ) ≤ x.significand := by exact_mod_cast significand_pos hx
  have hmono : (2 : ℚ) ^ (-1074 : ℤ) ≤ (2 : ℚ) ^ x.exponent := zpow_le_zpow_right₀ (by norm_num) x.leastExponent_le
  have hhalf : (2 : ℚ) ^ (-1075 : ℤ) = 1 / 2 * (2 : ℚ) ^ (-1074 : ℤ) := by
    rw [show (-1075 : ℤ) = -1 + -1074 by norm_num, zpow_add₀ (by norm_num)]
    norm_num
  calc (2 : ℚ) ^ (-1075 : ℤ) = 1 / 2 * (2 : ℚ) ^ (-1074 : ℤ) := hhalf
    _ ≤ (x.significand - 1 / 2) * (2 : ℚ) ^ x.exponent :=
        mul_le_mul (by linarith) hmono (two_zpow_pos _).le (by linarith)
    _ ≤ x.lowEnd := half_le_lowEnd hx
    _ ≤ q := h.low_le

/-- What a finite double covers lies below the least power of two that is not finite. -/
theorem Covers.lt (h : x.Covers q) (hfin : x.isFinite = true) : q < (2 : ℚ) ^ (1024 : ℤ) := by
  have hm : (x.significand : ℚ) + 1 ≤ 2 * binade := by exact_mod_cast x.significand_lt
  have hmono : (2 : ℚ) ^ x.exponent ≤ (2 : ℚ) ^ (971 : ℤ) := zpow_le_zpow_right₀ (by norm_num) (exponent_le hfin)
  have hbinade : (2 : ℚ) ^ (1024 : ℤ) = 2 * binade * (2 : ℚ) ^ (971 : ℤ) := by
    rw [binade_eq, show (1024 : ℤ) = 1 + 52 + 971 by norm_num, zpow_add₀ (by norm_num), zpow_add₀ (by norm_num),
      zpow_one]
  calc q ≤ (x.significand + 1 / 2) * (2 : ℚ) ^ x.exponent := x.highEnd_eq ▸ h.le_high
    _ ≤ (2 * binade - 1 / 2) * (2 : ℚ) ^ (971 : ℤ) :=
        mul_le_mul (by linarith) hmono (two_zpow_pos _).le (by norm_num [binade])
    _ < (2 : ℚ) ^ (1024 : ℤ) := by
        rw [hbinade, sub_mul]
        exact sub_lt_self _ (mul_pos (by norm_num) (two_zpow_pos _))

theorem digits_ne_zero_of_covers {n : Numeral} (h : x.Covers n.magnitude) (hx : 0 < x.place) : n.digits ≠ 0 := by
  intro h0
  have hlow := h.ge hx
  rw [Numeral.magnitude, h0, Nat.cast_zero, zero_mul] at hlow
  exact absurd hlow (not_le.2 (two_zpow_pos _))

/-- From the greatest exponents on, there is no finite double. -/
theorem le_magnitude_of_exponent {n : Numeral} (hdigits : n.digits ≠ 0) (h : 400 < n.exponent) :
    (2 : ℚ) ^ (1024 : ℤ) ≤ n.magnitude := by
  have hone : (1 : ℚ) ≤ n.digits := by exact_mod_cast Nat.pos_of_ne_zero hdigits
  calc (2 : ℚ) ^ (1024 : ℤ) ≤ (2 : ℚ) ^ (3 * ((401 : ℕ) : ℤ)) := zpow_le_zpow_right₀ (by norm_num) (by norm_num)
    _ ≤ (10 : ℚ) ^ ((401 : ℕ) : ℤ) := two_zpow_le_ten_zpow 401
    _ ≤ (10 : ℚ) ^ n.exponent := zpow_le_zpow_right₀ (by norm_num) (by push_cast; omega)
    _ = 1 * (10 : ℚ) ^ n.exponent := (one_mul _).symm
    _ ≤ n.magnitude := mul_le_mul_of_nonneg_right hone (ten_zpow_pos _).le

/-- Down from the smallest exponents, there is no positive double. -/
theorem magnitude_lt_of_exponent {n : Numeral} (h : n.exponent < -400 - (n.digits.log2 : ℤ)) :
    n.magnitude < (2 : ℚ) ^ (-1075 : ℤ) := by
  have hdigits : (n.digits : ℚ) ≤ (2 : ℚ) ^ ((n.digits.log2 : ℤ) + 1) := by
    exact_mod_cast (Nat.lt_log2_self (n := n.digits)).le
  have hmono : (10 : ℚ) ^ n.exponent ≤ (10 : ℚ) ^ (-((401 + n.digits.log2 : ℕ) : ℤ)) :=
    zpow_le_zpow_right₀ (by norm_num) (by push_cast; omega)
  calc n.magnitude ≤ (2 : ℚ) ^ ((n.digits.log2 : ℤ) + 1) * (2 : ℚ) ^ (-(3 * ((401 + n.digits.log2 : ℕ) : ℤ))) :=
        mul_le_mul hdigits (hmono.trans (ten_zpow_neg_le _)) (ten_zpow_pos _).le (two_zpow_pos _).le
    _ = (2 : ℚ) ^ ((n.digits.log2 : ℤ) + 1 + -(3 * ((401 + n.digits.log2 : ℕ) : ℤ))) :=
        (zpow_add₀ (by norm_num) _ _).symm
    _ < (2 : ℚ) ^ (-1075 : ℤ) := zpow_lt_zpow_right₀ (by norm_num) (by push_cast; omega)

/-- A numeral with a great exponent lies beyond all finite doubles. -/
theorem exponent_le_of_covers_numeral {n : Numeral} (h : x.Covers n.magnitude) (hx : 0 < x.place)
    (hfin : x.isFinite = true) : n.exponent ≤ 400 := by
  refine Classical.byContradiction fun hlarge => ?_
  have hle := le_magnitude_of_exponent (digits_ne_zero_of_covers h hx) (Int.not_le.1 hlarge)
  exact absurd (h.lt hfin) (not_lt.2 hle)

/-- A numeral with a small exponent for its digits lies below all positive doubles. -/
theorem le_exponent_of_covers_numeral {n : Numeral} (h : x.Covers n.magnitude) (hx : 0 < x.place) :
    -400 - (n.digits.log2 : ℤ) ≤ n.exponent := by
  refine Classical.byContradiction fun hsmall => ?_
  exact absurd (h.ge hx) (not_le.2 (magnitude_lt_of_exponent (Int.not_le.1 hsmall)))

/-- **A numeral** in the interval of a double is read as it. -/
theorem ofNumeral_of_covers (hx : 0 < x.place) (hfin : x.isFinite = true) {n : Numeral} (hn : n.negative = x.negative)
    (h : x.Covers n.magnitude) : ofNumeral n = x := by
  have hdigits := digits_ne_zero_of_covers h hx
  have hlarge := exponent_le_of_covers_numeral h hx hfin
  have hsmall := le_exponent_of_covers_numeral h hx
  rw [ofNumeral, if_neg hdigits, if_neg (by omega), if_neg (by omega), hn]
  rw [Numeral.magnitude] at h
  by_cases he : n.exponent < 0
  · obtain ⟨k, hk⟩ : ∃ k : ℕ, n.exponent = -k := ⟨(-n.exponent).toNat, by omega⟩
    rw [hk, zpow_neg, zpow_natCast, ← div_eq_mul_inv] at h
    rw [if_pos he, hk, neg_neg, Int.toNat_natCast]
    apply ofRatio_of_covers hx hfin hdigits
    · exact Nat.ne_of_gt (Nat.pow_pos (by omega))
    · rw [Numeral.tenTo, Nat.pow_eq]
      push_cast
      exact h
  · obtain ⟨k, hk⟩ : ∃ k : ℕ, n.exponent = k := ⟨n.exponent.toNat, by omega⟩
    rw [hk, zpow_natCast] at h
    rw [if_neg he, hk, Int.toNat_natCast]
    apply ofRatio_of_covers hx hfin
    · exact Nat.mul_ne_zero hdigits (Nat.ne_of_gt (Nat.pow_pos (by omega)))
    · exact Nat.one_ne_zero
    · rw [Numeral.tenTo, Nat.pow_eq]
      push_cast
      rw [div_one]
      exact h

/-! ## Decimals for a double -/

/-- A number of quarters of the last place as a fraction. -/
theorem quarters_eq (x : Binary64) (n : ℕ) :
    0 < (x.quarters n).2 ∧ ((x.quarters n).1 : ℚ) / (x.quarters n).2 = n * (2 : ℚ) ^ (x.exponent - 2) := by
  rw [quarters]
  generalize x.exponent - 2 = e
  by_cases he : e < 0
  · obtain ⟨k, rfl⟩ : ∃ k : ℕ, e = -k := ⟨(-e).toNat, by omega⟩
    rw [if_pos he, neg_neg, Int.toNat_natCast, Nat.shiftLeft_eq, zpow_neg, zpow_natCast]
    refine ⟨by positivity, ?_⟩
    push_cast
    rw [one_mul, div_eq_mul_inv]
  · obtain ⟨k, rfl⟩ : ∃ k : ℕ, e = k := ⟨e.toNat, by omega⟩
    rw [if_neg he, Int.toNat_natCast, Nat.shiftLeft_eq, zpow_natCast]
    refine ⟨Nat.one_pos, ?_⟩
    push_cast
    rw [div_one]

/-- A fraction times a power of ten. -/
theorem scaleTen_eq (num : ℕ) (hden : 0 < den) (e : ℤ) :
    0 < (scaleTen num den e).2 ∧
      ((scaleTen num den e).1 : ℚ) / (scaleTen num den e).2 = (num : ℚ) / den * (10 : ℚ) ^ e := by
  rw [scaleTen]
  by_cases he : e < 0
  · obtain ⟨k, rfl⟩ : ∃ k : ℕ, e = -k := ⟨(-e).toNat, by omega⟩
    rw [if_pos he, neg_neg, Int.toNat_natCast, Numeral.tenTo, Nat.pow_eq, zpow_neg, zpow_natCast]
    refine ⟨by positivity, ?_⟩
    push_cast
    rw [← div_div, div_eq_mul_inv _ ((10 : ℚ) ^ k)]
  · obtain ⟨k, rfl⟩ : ∃ k : ℕ, e = k := ⟨e.toNat, by omega⟩
    rw [if_neg he, Int.toNat_natCast, Numeral.tenTo, Nat.pow_eq, zpow_natCast]
    refine ⟨hden, ?_⟩
    push_cast
    rw [div_mul_eq_mul_div]

/-- A number of quarters of the last place in units of `10 ^ e`. -/
theorem quarters_scaleTen (x : Binary64) (n : ℕ) (e : ℤ) :
    0 < (scaleTen (x.quarters n).1 (x.quarters n).2 (-e)).2 ∧
      ((scaleTen (x.quarters n).1 (x.quarters n).2 (-e)).1 : ℚ) / (scaleTen (x.quarters n).1 (x.quarters n).2 (-e)).2 =
        n * (2 : ℚ) ^ (x.exponent - 2) / (10 : ℚ) ^ e := by
  obtain ⟨hpos, hq⟩ := x.quarters_eq n
  obtain ⟨hpos', hs⟩ := scaleTen_eq (x.quarters n).1 hpos (-e)
  refine ⟨hpos', ?_⟩
  rw [hs, hq, zpow_neg, div_eq_mul_inv]

theorem value_eq (x : Binary64) : ((4 * x.significand : ℕ) : ℚ) * (2 : ℚ) ^ (x.exponent - 2) = x.value := by
  rw [quarter_zpow, value]
  push_cast
  ring

/-- A decimal rounds back just if the double covers it. -/
theorem roundsBack_iff (x : Binary64) (k : ℕ) (e : ℤ) :
    x.roundsBack k e = true ↔ x.Covers (k * (10 : ℚ) ^ e) := by
  obtain ⟨hl, hlow⟩ := x.quarters_scaleTen x.interval.1 e
  obtain ⟨hh, hhigh⟩ := x.quarters_scaleTen x.interval.2.2 e
  rw [roundsBack, Covers, lowEnd, highEnd]
  generalize scaleTen (x.quarters x.interval.1).1 (x.quarters x.interval.1).2 (-e) = low at hl hlow ⊢
  generalize scaleTen (x.quarters x.interval.2.2).1 (x.quarters x.interval.2.2).2 (-e) = high at hh hhigh ⊢
  have hl' : (0 : ℚ) < low.2 := by exact_mod_cast hl
  have hh' : (0 : ℚ) < high.2 := by exact_mod_cast hh
  have hT := ten_zpow_pos e
  -- the four comparisons of fractions
  have hle₁ : low.1 ≤ k * low.2 ↔ (x.interval.1 : ℚ) * (2 : ℚ) ^ (x.exponent - 2) ≤ k * (10 : ℚ) ^ e := by
    rw [← div_le_iff₀ hT, ← hlow, div_le_iff₀ hl']
    exact_mod_cast Iff.rfl
  have hlt₁ : low.1 < k * low.2 ↔ (x.interval.1 : ℚ) * (2 : ℚ) ^ (x.exponent - 2) < k * (10 : ℚ) ^ e := by
    rw [← div_lt_iff₀ hT, ← hlow, div_lt_iff₀ hl']
    exact_mod_cast Iff.rfl
  have hle₂ : k * high.2 ≤ high.1 ↔ k * (10 : ℚ) ^ e ≤ (x.interval.2.2 : ℚ) * (2 : ℚ) ^ (x.exponent - 2) := by
    rw [← le_div_iff₀ hT, ← hhigh, le_div_iff₀ hh']
    exact_mod_cast Iff.rfl
  have hlt₂ : k * high.2 < high.1 ↔ k * (10 : ℚ) ^ e < (x.interval.2.2 : ℚ) * (2 : ℚ) ^ (x.exponent - 2) := by
    rw [← lt_div_iff₀ hT, ← hhigh, lt_div_iff₀ hh']
    exact_mod_cast Iff.rfl
  split
  · rw [Bool.and_eq_true, decide_eq_true_iff, decide_eq_true_iff, hle₁, hle₂]
  · rw [Bool.and_eq_true, decide_eq_true_iff, decide_eq_true_iff, hlt₁, hlt₂]

/-! ## The first digit -/

theorem ten_zpow_le_two_zpow (b : ℕ) : (10 : ℚ) ^ (59 * (b : ℤ)) ≤ (2 : ℚ) ^ (196 * (b : ℤ)) := by
  rw [zpow_mul, zpow_mul, zpow_natCast, zpow_natCast]
  exact pow_le_pow_left₀ (by positivity) (by norm_num) b

theorem two_zpow_le_ten_zpow_neg (b : ℕ) : (2 : ℚ) ^ (-(196 * (b : ℤ))) ≤ (10 : ℚ) ^ (-(59 * (b : ℤ))) := by
  rw [zpow_neg, zpow_neg]
  exact inv_anti₀ (ten_zpow_pos _) (ten_zpow_le_two_zpow b)

theorem two_zpow_le_ten_zpow_near (b : ℕ) : (2 : ℚ) ^ (93 * (b : ℤ)) ≤ (10 : ℚ) ^ (28 * (b : ℤ)) := by
  rw [zpow_mul, zpow_mul, zpow_natCast, zpow_natCast]
  exact pow_le_pow_left₀ (by positivity) (by norm_num) b

theorem ten_zpow_le_two_zpow_neg (b : ℕ) : (10 : ℚ) ^ (-(28 * (b : ℤ))) ≤ (2 : ℚ) ^ (-(93 * (b : ℤ))) := by
  rw [zpow_neg, zpow_neg]
  exact inv_anti₀ (two_zpow_pos _) (two_zpow_le_ten_zpow_near b)

/-- Two powers are in the order of their own powers. -/
theorem zpow_le_zpow_of_mul {a b : ℚ} (ha : 0 < a) (hb : 0 < b) {s t : ℤ} {n : ℕ} (hn : n ≠ 0)
    (h : a ^ (n * s) ≤ b ^ (n * t)) : a ^ s ≤ b ^ t := by
  rw [mul_comm, zpow_mul, mul_comm, zpow_mul, zpow_natCast, zpow_natCast] at h
  exact (pow_le_pow_iff_left₀ (zpow_pos ha s).le (zpow_pos hb t).le hn).1 h

/-- `30103 / 100000` is near enough to the logarithm of 2 for all exponents of doubles. -/
theorem ten_zpow_guess_le {b : ℤ} (hb : -1100 ≤ b ∧ b ≤ 1100) :
    (10 : ℚ) ^ (b * 30103 / 100000 - 1) ≤ (2 : ℚ) ^ (b - 1) := by
  generalize ht : b * 30103 / 100000 = t
  rcases le_total 0 b with hsign | hsign
  · obtain ⟨c, rfl⟩ := Int.eq_ofNat_of_zero_le hsign
    apply zpow_le_zpow_of_mul (by norm_num) (by norm_num) (show 196 ≠ 0 by omega)
    calc (10 : ℚ) ^ (((196 : ℕ) : ℤ) * (t - 1)) ≤ (10 : ℚ) ^ (59 * (c : ℤ) + -((66 : ℕ) : ℤ)) :=
          zpow_le_zpow_right₀ (by norm_num) (by push_cast; omega)
      _ = (10 : ℚ) ^ (59 * (c : ℤ)) * (10 : ℚ) ^ (-((66 : ℕ) : ℤ)) := zpow_add₀ (by norm_num) _ _
      _ ≤ (2 : ℚ) ^ (196 * (c : ℤ)) * (2 : ℚ) ^ (-(3 * ((66 : ℕ) : ℤ))) :=
          mul_le_mul (ten_zpow_le_two_zpow c) (ten_zpow_neg_le 66) (ten_zpow_pos _).le (two_zpow_pos _).le
      _ = (2 : ℚ) ^ (196 * (c : ℤ) + -(3 * ((66 : ℕ) : ℤ))) := (zpow_add₀ (by norm_num) _ _).symm
      _ ≤ (2 : ℚ) ^ (((196 : ℕ) : ℤ) * ((c : ℤ) - 1)) := zpow_le_zpow_right₀ (by norm_num) (by push_cast; omega)
  · obtain ⟨c, rfl⟩ : ∃ c : ℕ, b = -c := ⟨(-b).toNat, by omega⟩
    apply zpow_le_zpow_of_mul (by norm_num) (by norm_num) (show 93 ≠ 0 by omega)
    calc (10 : ℚ) ^ (((93 : ℕ) : ℤ) * (t - 1)) ≤ (10 : ℚ) ^ (-(28 * (c : ℤ)) + -((31 : ℕ) : ℤ)) :=
          zpow_le_zpow_right₀ (by norm_num) (by push_cast; omega)
      _ = (10 : ℚ) ^ (-(28 * (c : ℤ))) * (10 : ℚ) ^ (-((31 : ℕ) : ℤ)) := zpow_add₀ (by norm_num) _ _
      _ ≤ (2 : ℚ) ^ (-(93 * (c : ℤ))) * (2 : ℚ) ^ (-(3 * ((31 : ℕ) : ℤ))) :=
          mul_le_mul (ten_zpow_le_two_zpow_neg c) (ten_zpow_neg_le 31) (ten_zpow_pos _).le (two_zpow_pos _).le
      _ = (2 : ℚ) ^ (-(93 * (c : ℤ)) + -(3 * ((31 : ℕ) : ℤ))) := (zpow_add₀ (by norm_num) _ _).symm
      _ ≤ (2 : ℚ) ^ (((93 : ℕ) : ℤ) * (-(c : ℤ) - 1)) := zpow_le_zpow_right₀ (by norm_num) (by push_cast; omega)

/-- It is near enough from above too. -/
theorem two_zpow_le_guess {b : ℤ} (hb : -1100 ≤ b ∧ b ≤ 1100) :
    (2 : ℚ) ^ (b + 1) ≤ (10 : ℚ) ^ (b * 30103 / 100000 + 2) := by
  generalize ht : b * 30103 / 100000 = t
  rcases le_total 0 b with hsign | hsign
  · obtain ⟨c, rfl⟩ := Int.eq_ofNat_of_zero_le hsign
    apply zpow_le_zpow_of_mul (by norm_num) (by norm_num) (show 93 ≠ 0 by omega)
    calc (2 : ℚ) ^ (((93 : ℕ) : ℤ) * ((c : ℤ) + 1)) = (2 : ℚ) ^ (93 * ((c + 1 : ℕ) : ℤ)) := by
          push_cast
          rfl
      _ ≤ (10 : ℚ) ^ (28 * ((c + 1 : ℕ) : ℤ)) := two_zpow_le_ten_zpow_near (c + 1)
      _ ≤ (10 : ℚ) ^ (((93 : ℕ) : ℤ) * (t + 2)) := zpow_le_zpow_right₀ (by norm_num) (by push_cast; omega)
  · obtain ⟨c, rfl⟩ : ∃ c : ℕ, b = -c := ⟨(-b).toNat, by omega⟩
    apply zpow_le_zpow_of_mul (by norm_num) (by norm_num) (show 196 ≠ 0 by omega)
    calc (2 : ℚ) ^ (((196 : ℕ) : ℤ) * (-(c : ℤ) + 1)) = (2 : ℚ) ^ (-(196 * (c : ℤ))) * (2 : ℚ) ^ (196 : ℤ) := by
          rw [← zpow_add₀ (by norm_num)]
          push_cast
          congr 1
          ring
      _ ≤ (10 : ℚ) ^ (-(59 * (c : ℤ))) * (10 : ℚ) ^ (60 : ℤ) :=
          mul_le_mul (two_zpow_le_ten_zpow_neg c) (by norm_num) (two_zpow_pos _).le (ten_zpow_pos _).le
      _ = (10 : ℚ) ^ (-(59 * (c : ℤ)) + 60) := (zpow_add₀ (by norm_num) _ _).symm
      _ ≤ (10 : ℚ) ^ (((196 : ℕ) : ℤ) * (t + 2)) := zpow_le_zpow_right₀ (by norm_num) (by push_cast; omega)

theorem covers_of_lt (hlow : x.lowEnd < q) (hhigh : q < x.highEnd) : x.Covers q := by
  rw [Covers]
  split
  · exact ⟨hlow.le, hhigh.le⟩
  · exact ⟨hlow, hhigh⟩

/-- A double covers its own value. -/
theorem covers_value (hx : 0 < x.place) : x.Covers x.value := by
  have hP := two_zpow_pos x.exponent
  apply covers_of_lt
  · rw [lowEnd_eq hx, value]
    apply mul_lt_mul_of_pos_right _ hP
    split <;> linarith
  · rw [highEnd_eq, value]
    apply mul_lt_mul_of_pos_right _ hP
    linarith

/-- The value of a finite double lies between two powers of two that its fraction gives. -/
theorem value_between_powers (hx : 0 < x.place) (hfin : x.isFinite = true) :
    ∃ bits : ℤ, ((x.quarters (4 * x.significand)).1.log2 : ℤ) - (x.quarters (4 * x.significand)).2.log2 = bits ∧
      (-1100 ≤ bits ∧ bits ≤ 1100) ∧ (2 : ℚ) ^ (bits - 1) < x.value ∧ x.value < (2 : ℚ) ^ (bits + 1) := by
  have hcovers := covers_value hx
  obtain ⟨hden, hvalue⟩ := x.quarters_eq (4 * x.significand)
  rw [value_eq] at hvalue
  have hnum : (x.quarters (4 * x.significand)).1 ≠ 0 := by
    intro h0
    rw [h0, Nat.cast_zero, zero_div] at hvalue
    have := hcovers.ge hx
    rw [← hvalue] at this
    exact absurd this (not_le.2 (two_zpow_pos _))
  obtain ⟨hlow, hhigh⟩ := between_powers hnum (Nat.ne_of_gt hden)
  rw [hvalue] at hlow hhigh
  refine ⟨_, rfl, ?_, hlow, hhigh⟩
  have h₁ := hlow.trans (hcovers.lt hfin)
  have h₂ := (hcovers.ge hx).trans_lt hhigh
  rw [zpow_lt_zpow_iff_right₀ (by norm_num)] at h₁ h₂
  omega

/-- What is tried for the decimal exponent of the first digit. -/
theorem fits_iff (x : Binary64) (e : ℤ) :
    (scaleTen (x.quarters (4 * x.significand)).1 (x.quarters (4 * x.significand)).2 (-e)).2 ≤
      (scaleTen (x.quarters (4 * x.significand)).1 (x.quarters (4 * x.significand)).2 (-e)).1 ↔
        (10 : ℚ) ^ e ≤ x.value := by
  obtain ⟨hpos, hscaled⟩ := x.quarters_scaleTen (4 * x.significand) e
  have hpos' : (0 : ℚ) < (scaleTen (x.quarters (4 * x.significand)).1 (x.quarters (4 * x.significand)).2 (-e)).2 := by
    exact_mod_cast hpos
  rw [value_eq] at hscaled
  rw [← one_le_div₀ (ten_zpow_pos e), ← hscaled, one_le_div₀ hpos']
  exact_mod_cast Iff.rfl

/-- **The first digit** of a finite double is at its leading exponent. -/
theorem leadingExponent_spec (hx : 0 < x.place) (hfin : x.isFinite = true) :
    (10 : ℚ) ^ x.leadingExponent ≤ x.value ∧ x.value < (10 : ℚ) ^ (x.leadingExponent + 1) := by
  obtain ⟨bits, heq, hbits, hlow, hhigh⟩ := value_between_powers hx hfin
  have hguess := (ten_zpow_guess_le hbits).trans hlow.le
  have hguess' := hhigh.trans_le (two_zpow_le_guess hbits)
  simp only [leadingExponent, heq, decide_eq_true_eq, fits_iff]
  generalize bits * 30103 / 100000 = t at *
  by_cases hsecond : (10 : ℚ) ^ (t - 1 + 2) ≤ x.value
  · rw [if_pos hsecond, show t - 1 + 2 + 1 = t + 2 by ring]
    exact ⟨hsecond, hguess'⟩
  · rw [if_neg hsecond]
    by_cases hfirst : (10 : ℚ) ^ (t - 1 + 1) ≤ x.value
    · rw [if_pos hfirst, show t - 1 + 1 + 1 = t - 1 + 2 by ring]
      exact ⟨hfirst, not_le.1 hsecond⟩
    · rw [if_neg hfirst]
      exact ⟨hguess, not_le.1 hfirst⟩

/-! ## The shortest decimal -/

theorem roundsBack_of_onGrid {k : ℕ} (h : x.onGrid e = some k) : x.roundsBack k e = true := by
  rw [onGrid] at h
  split at h
  · cases h
    assumption
  · split at h
    · cases h
      assumption
    · cases h

/-- The search ends at a decimal that rounds back, or after all grids. -/
theorem firstGrid_cases (x : Binary64) (tries : ℕ) (e : ℤ) :
    x.roundsBack (x.firstGrid tries e).digits (x.firstGrid tries e).exponent = true ∨
      x.firstGrid tries e = ⟨(x.gridNeighbours (e - tries)).1, e - tries⟩ := by
  induction tries generalizing e with
  | zero =>
    right
    rw [firstGrid, Nat.cast_zero, sub_zero]
  | succ tries ih =>
    rw [firstGrid]
    cases hgrid : x.onGrid e with
    | some k => exact .inl (roundsBack_of_onGrid hgrid)
    | none =>
      have hexp : e - ((tries + 1 : ℕ) : ℤ) = e - 1 - tries := by
        push_cast
        ring
      rw [hexp]
      exact ih (e - 1)

/-- The nearest point of a grid is at most half of its unit away. -/
theorem gridNeighbours_near (x : Binary64) (e : ℤ) :
    x.value - (10 : ℚ) ^ e / 2 ≤ (x.gridNeighbours e).1 * (10 : ℚ) ^ e ∧
      (x.gridNeighbours e).1 * (10 : ℚ) ^ e ≤ x.value + (10 : ℚ) ^ e / 2 := by
  obtain ⟨hden, hscaled⟩ := x.quarters_scaleTen (4 * x.significand) e
  rw [value_eq] at hscaled
  obtain ⟨hlow, hhigh⟩ := roundHalfEven_near
    (scaleTen (x.quarters (4 * x.significand)).1 (x.quarters (4 * x.significand)).2 (-e)).1 hden
  rw [hscaled] at hlow hhigh
  rw [gridNeighbours]
  dsimp only
  generalize roundHalfEven _ _ = k at hlow hhigh ⊢
  have hT := ten_zpow_pos e
  constructor
  · have hmul := mul_le_mul_of_nonneg_right hlow hT.le
    rw [sub_mul, div_mul_cancel₀ _ hT.ne'] at hmul
    linarith
  · have hmul := mul_le_mul_of_nonneg_right hhigh hT.le
    rw [add_mul, div_mul_cancel₀ _ hT.ne'] at hmul
    linarith

/-- What is nearer to a double than half of the seventeenth digit of its value is covered. -/
theorem covers_of_near (hx : 0 < x.place) {unit : ℚ} (hunit : 10 ^ 16 * unit ≤ x.value)
    (hlow : x.value - unit / 2 ≤ q) (hhigh : q ≤ x.value + unit / 2) : x.Covers q := by
  have hP := two_zpow_pos x.exponent
  have hm : (x.significand : ℚ) + 1 ≤ 2 * binade := by exact_mod_cast x.significand_lt
  have hmP : (x.significand : ℚ) * (2 : ℚ) ^ x.exponent ≤ (2 * binade - 1) * (2 : ℚ) ^ x.exponent :=
    mul_le_mul_of_nonneg_right (by linarith) hP.le
  rw [value] at hunit
  have hfine : unit < (2 : ℚ) ^ x.exponent := by
    norm_num [binade] at hunit hmP
    linarith
  apply covers_of_lt
  · refine lt_of_lt_of_le ?_ hlow
    rw [lowEnd_eq hx, value]
    split
    · -- below a power of two there is only half as much room
      rename_i hpower
      rw [significand_of_power hpower] at hunit ⊢
      norm_num [binade] at hunit ⊢
      linarith
    · linarith
  · refine lt_of_le_of_lt hhigh ?_
    rw [highEnd_eq, value]
    linarith

/-- **The shortest decimal** of a positive double is covered by it. -/
theorem covers_shortest (hx : 0 < x.place) (hfin : x.isFinite = true) : x.Covers x.shortest.value := by
  rw [shortest]
  rcases x.firstGrid_cases 16 x.leadingExponent with h | h
  · exact (x.roundsBack_iff _ _).1 h
  · obtain ⟨hlow, hhigh⟩ := x.gridNeighbours_near (x.leadingExponent - 16)
    rw [h]
    refine covers_of_near hx ?_ hlow hhigh
    rw [← zpow_natCast, ← zpow_add₀ (by norm_num), show ((16 : ℕ) : ℤ) + (x.leadingExponent - 16) = x.leadingExponent by
      push_cast; ring]
    exact (leadingExponent_spec hx hfin).1

/-! ## Texts -/

/-- The number that the text of a double without its sign denotes. -/
def shown (x : Binary64) : ℚ :=
  if x.place = 0 then 0 else x.shortest.value

/-- The text of a finite double without its sign spells the number that is shown. -/
theorem spells_chars (hfin : x.isFinite = true) :
    ∃ cs, x.chars = (if x.negative then ['-'] else []) ++ cs ∧ Numeral.Spells cs x.shown := by
  by_cases hzero : x.place = 0
  · refine ⟨['0', '.', '0'], ?_, ?_⟩
    · rw [chars, if_pos hzero]
    · have hspells := Numeral.spells_point ['0'] ['0'] (List.cons_ne_nil _ _) rfl rfl
      rw [show Numeral.ofDigits (['0'] ++ ['0']) = 0 from rfl, Nat.cast_zero, zero_mul] at hspells
      rw [shown, if_pos hzero]
      exact hspells
  · have hx : 0 < x.place := Nat.pos_of_ne_zero hzero
    have hdigits : x.shortest.digits ≠ 0 := by
      intro h0
      have := (covers_shortest hx hfin).ge hx
      rw [Decimal.value, h0, Nat.cast_zero, zero_mul] at this
      exact absurd this (not_le.2 (two_zpow_pos _))
    refine ⟨layout.write x.shortest, ?_, ?_⟩
    · rw [chars, if_neg hzero]
    · rw [shown, if_neg hzero]
      exact layout.spells_write hdigits

/-- The text of a finite double is read as a numeral for what is shown. -/
theorem numeral_chars (hfin : x.isFinite = true) :
    ∃ n, Numeral.parse? x.chars = some n ∧ n.negative = x.negative ∧ n.magnitude = x.shown := by
  obtain ⟨cs, hchars, hspells⟩ := spells_chars hfin
  rw [hchars]
  exact Numeral.parse?_of_spells hspells x.negative

/-- A numeral for what a double shows is read as it. -/
theorem ofNumeral_of_shown (hfin : x.isFinite = true) {n : Numeral} (hn : n.negative = x.negative)
    (h : n.magnitude = x.shown) : ofNumeral n = x := by
  rw [shown] at h
  split at h
  · rename_i hzero
    have hdigits : n.digits = 0 := by
      rw [Numeral.magnitude] at h
      exact_mod_cast (mul_eq_zero.1 h).resolve_right (ten_zpow_pos _).ne'
    rw [ofNumeral, if_pos hdigits, hn, zero, ← hzero]
  · rename_i hzero
    have hx : 0 < x.place := Nat.pos_of_ne_zero hzero
    exact ofNumeral_of_covers hx hfin hn (h ▸ covers_shortest hx hfin)

/-- **A finite double** is read back from its text. -/
theorem parse?_chars (hfin : x.isFinite = true) : parse? x.chars = some x := by
  obtain ⟨n, hparse, hn, hshown⟩ := numeral_chars hfin
  rw [parse?, hparse]
  exact congrArg some (ofNumeral_of_shown hfin hn hshown)

/-- The text of a finite double is not that of a whole number. -/
theorem integer?_chars (hfin : x.isFinite = true) : Numeral.integer? x.chars = none := by
  obtain ⟨cs, hchars, hspells⟩ := spells_chars hfin
  rw [hchars]
  exact Numeral.integer?_of_spells hspells x.negative

end RecordStore.Binary64
