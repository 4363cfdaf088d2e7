import Mathlib.Algebra.Order.Field.Power
import Mathlib.Algebra.Order.Field.Rat
import Mathlib.Tactic.FieldSimp
import Mathlib.Tactic.Linarith
import Mathlib.Tactic.NormNum
import Mathlib.Tactic.Ring
import RecordStore.Number.Shortest

/-!
# Rounding to doubles

`Binary64.Covers x q` says that `q` lies between the halfway points beside the positive number `x`, or on one of them if
the significand of `x` is even. **`Binary64.ofRatio_of_covers`**: such a fraction is rounded to `x`.
-/

namespace RecordStore.Binary64

variable {x : Binary64} {num den m : ℕ} {e : ℤ} {q : ℚ}

/-! ## Whole numbers -/

/-- The whole number that is nearest is found; halfway, the even one. -/
theorem roundHalfEven_eq_of_mul (hden : 0 < den) (hlow : 2 * (m * den) ≤ 2 * num + den)
    (hhigh : 2 * num ≤ 2 * (m * den) + den)
    (htie : m % 2 = 0 ∨ (2 * (m * den) < 2 * num + den ∧ 2 * num < 2 * (m * den) + den)) :
    roundHalfEven num den = m := by
  have hsplit : num / den * den + num % den = num := Nat.div_add_mod' num den
  have hrest : num % den < den := Nat.mod_lt num hden
  rw [roundHalfEven]
  generalize num / den = k at hsplit ⊢
  generalize num % den = r at hsplit hrest ⊢
  have hcases : m = k ∨ m = k + 1 := by
    rcases Nat.lt_trichotomy m k with h | h | h
    · have hmul := Nat.mul_le_mul_right den (show m + 1 ≤ k from h)
      rw [Nat.add_mul] at hmul
      omega
    · exact .inl h
    · rcases Nat.lt_or_ge (k + 1) m with h' | h'
      · have hmul := Nat.mul_le_mul_right den (show k + 2 ≤ m from h')
        rw [Nat.add_mul] at hmul
        omega
      · exact .inr (by omega)
  rcases hcases with rfl | rfl
  · split
    · rfl
    · split <;> omega
  · rw [Nat.add_mul] at hlow hhigh htie
    split
    · omega
    · split <;> omega

/-- The same for the fraction as a number. -/
theorem roundHalfEven_eq (hden : 0 < den) (hlow : (m : ℚ) - 1 / 2 ≤ (num : ℚ) / den)
    (hhigh : (num : ℚ) / den ≤ m + 1 / 2)
    (htie : m % 2 = 0 ∨ ((m : ℚ) - 1 / 2 < (num : ℚ) / den ∧ (num : ℚ) / den < m + 1 / 2)) :
    roundHalfEven num den = m := by
  have hd : (0 : ℚ) < den := by exact_mod_cast hden
  apply roundHalfEven_eq_of_mul hden
  · rw [le_div_iff₀ hd] at hlow
    have : (2 * (m * den) : ℚ) ≤ 2 * num + den := by linarith
    exact_mod_cast this
  · rw [div_le_iff₀ hd] at hhigh
    have : (2 * num : ℚ) ≤ 2 * (m * den) + den := by linarith
    exact_mod_cast this
  · rcases htie with htie | ⟨hl, hh⟩
    · exact .inl htie
    · rw [lt_div_iff₀ hd] at hl
      rw [div_lt_iff₀ hd] at hh
      have hl' : (2 * (m * den) : ℚ) < 2 * num + den := by linarith
      have hh' : (2 * num : ℚ) < 2 * (m * den) + den := by linarith
      exact .inr ⟨by exact_mod_cast hl', by exact_mod_cast hh'⟩

/-- What a fraction is rounded to is at most one half away. -/
theorem roundHalfEven_near (num : ℕ) (hden : 0 < den) :
    (num : ℚ) / den - 1 / 2 ≤ roundHalfEven num den ∧ (roundHalfEven num den : ℚ) ≤ (num : ℚ) / den + 1 / 2 := by
  have hd : (0 : ℚ) < den := by exact_mod_cast hden
  have hnat : 2 * num ≤ 2 * (roundHalfEven num den * den) + den ∧
      2 * (roundHalfEven num den * den) ≤ 2 * num + den := by
    have hsplit : num / den * den + num % den = num := Nat.div_add_mod' num den
    have hrest : num % den < den := Nat.mod_lt num hden
    rw [roundHalfEven]
    generalize num / den = k at hsplit ⊢
    generalize num % den = r at hsplit hrest ⊢
    split
    · omega
    · split
      · rw [Nat.add_mul]
        omega
      · rcases Nat.mod_two_eq_zero_or_one k with h | h
        · rw [h, Nat.add_zero]
          omega
        · rw [h, Nat.add_mul]
          omega
  obtain ⟨hl, hh⟩ := hnat
  have hl' : (2 * num : ℚ) ≤ 2 * (roundHalfEven num den * den) + den := by exact_mod_cast hl
  have hh' : (2 * (roundHalfEven num den * den) : ℚ) ≤ 2 * num + den := by exact_mod_cast hh
  constructor
  · rw [sub_le_iff_le_add, div_le_iff₀ hd]
    linarith
  · rw [← sub_le_iff_le_add, le_div_iff₀ hd]
    linarith

/-! ## Fractions -/

theorem two_zpow_pos (e : ℤ) : (0 : ℚ) < (2 : ℚ) ^ e := zpow_pos (by norm_num) e

/-- A fraction divided by a power of two. -/
theorem scaleDown_eq (num : ℕ) (hden : 0 < den) (e : ℤ) :
    0 < (scaleDown num den e).2 ∧
      ((scaleDown num den e).1 : ℚ) / ((scaleDown num den e).2 : ℚ) = (num : ℚ) / den / (2 : ℚ) ^ e := by
  rw [scaleDown]
  by_cases he : e < 0
  · obtain ⟨n, rfl⟩ : ∃ n : ℕ, e = -n := ⟨(-e).toNat, by omega⟩
    rw [if_pos he, neg_neg, Int.toNat_natCast, Nat.shiftLeft_eq, zpow_neg, zpow_natCast]
    refine ⟨hden, ?_⟩
    push_cast
    field_simp
  · obtain ⟨n, rfl⟩ : ∃ n : ℕ, e = n := ⟨e.toNat, by omega⟩
    rw [if_neg he, Int.toNat_natCast, Nat.shiftLeft_eq, zpow_natCast]
    refine ⟨by positivity, ?_⟩
    push_cast
    rw [div_div]

theorem div_lt_iff (hden : 0 < den) : num / den < m ↔ (num : ℚ) / den < m := by
  have hd : (0 : ℚ) < den := by exact_mod_cast hden
  rw [Nat.div_lt_iff_lt_mul hden, div_lt_iff₀ hd]
  exact_mod_cast Iff.rfl

theorem binade_eq : (binade : ℚ) = (2 : ℚ) ^ (52 : ℤ) := by
  rw [binade]
  norm_num

/-- A fraction lies between two powers of two that its parts give. -/
theorem between_powers (hnum : num ≠ 0) (hden : den ≠ 0) :
    (2 : ℚ) ^ ((num.log2 : ℤ) - den.log2 - 1) < (num : ℚ) / den ∧
      (num : ℚ) / den < (2 : ℚ) ^ ((num.log2 : ℤ) - den.log2 + 1) := by
  have hd : (0 : ℚ) < den := by exact_mod_cast Nat.pos_of_ne_zero hden
  have hn1 : (2 : ℚ) ^ (num.log2 : ℤ) ≤ num := by exact_mod_cast Nat.log2_self_le hnum
  have hn2 : (num : ℚ) < (2 : ℚ) ^ ((num.log2 : ℤ) + 1) := by exact_mod_cast (Nat.lt_log2_self (n := num))
  have hd1 : (2 : ℚ) ^ (den.log2 : ℤ) ≤ den := by exact_mod_cast Nat.log2_self_le hden
  have hd2 : (den : ℚ) < (2 : ℚ) ^ ((den.log2 : ℤ) + 1) := by exact_mod_cast (Nat.lt_log2_self (n := den))
  constructor
  · rw [lt_div_iff₀ hd]
    calc (2 : ℚ) ^ ((num.log2 : ℤ) - den.log2 - 1) * den
        < (2 : ℚ) ^ ((num.log2 : ℤ) - den.log2 - 1) * (2 : ℚ) ^ ((den.log2 : ℤ) + 1) :=
          mul_lt_mul_of_pos_left hd2 (two_zpow_pos _)
      _ = (2 : ℚ) ^ (num.log2 : ℤ) := by
          rw [← zpow_add₀ (by norm_num)]
          congr 1
          ring
      _ ≤ num := hn1
  · rw [div_lt_iff₀ hd]
    calc (num : ℚ) < (2 : ℚ) ^ ((num.log2 : ℤ) + 1) := hn2
      _ = (2 : ℚ) ^ ((num.log2 : ℤ) - den.log2 + 1) * (2 : ℚ) ^ (den.log2 : ℤ) := by
          rw [← zpow_add₀ (by norm_num)]
          congr 1
          ring
      _ ≤ (2 : ℚ) ^ ((num.log2 : ℤ) - den.log2 + 1) * den := mul_le_mul_of_nonneg_left hd1 (two_zpow_pos _).le

/-- One of two exponents gives a fraction a significand of 53 bits. -/
theorem exponent_fits (hnum : num ≠ 0) (hden : den ≠ 0) {guess : ℤ} (hguess : (num.log2 : ℤ) - den.log2 - 53 = guess) :
    ∃ fit : ℤ,
      (if (scaleDown num den guess).1 / (scaleDown num den guess).2 < 2 * binade then guess else guess + 1) = fit ∧
        binade * (2 : ℚ) ^ fit ≤ (num : ℚ) / den ∧ (num : ℚ) / den < 2 * binade * (2 : ℚ) ^ fit := by
  obtain ⟨hlow, hhigh⟩ := between_powers hnum hden
  rw [show (num.log2 : ℤ) - den.log2 - 1 = 52 + guess by omega, zpow_add₀ (by norm_num)] at hlow
  rw [show (num.log2 : ℤ) - den.log2 + 1 = 54 + guess by omega, zpow_add₀ (by norm_num)] at hhigh
  obtain ⟨hpos, hscaled⟩ := scaleDown_eq num (Nat.pos_of_ne_zero hden) guess
  have hif : ((scaleDown num den guess).1 / (scaleDown num den guess).2 < 2 * binade) ↔
      (num : ℚ) / den < 2 * binade * (2 : ℚ) ^ guess := by
    rw [div_lt_iff hpos, hscaled, div_lt_iff₀ (two_zpow_pos guess)]
    push_cast
    exact Iff.rfl
  by_cases h : (num : ℚ) / den < 2 * binade * (2 : ℚ) ^ guess
  · refine ⟨guess, if_pos (hif.2 h), ?_, h⟩
    rw [binade_eq]
    exact hlow.le
  · refine ⟨guess + 1, if_neg (mt hif.1 h), ?_, ?_⟩
    · rw [zpow_add_one₀ (by norm_num)]
      linarith
    · rw [zpow_add_one₀ (by norm_num), binade_eq]
      have h54 : (2 : ℚ) ^ (54 : ℤ) = 4 * (2 : ℚ) ^ (52 : ℤ) := by norm_num
      rw [h54] at hhigh
      linarith

/-- At its exponent a fraction has a significand of 53 bits, or the exponent is the least one and it has fewer. -/
theorem ratioExponent_spec (hnum : num ≠ 0) (hden : den ≠ 0) :
    leastExponent ≤ ratioExponent num den ∧
      (num : ℚ) / den < 2 * binade * (2 : ℚ) ^ ratioExponent num den ∧
      (ratioExponent num den = leastExponent ∨ binade * (2 : ℚ) ^ ratioExponent num den ≤ (num : ℚ) / den) := by
  obtain ⟨fit, hfit, hlow, hhigh⟩ := exponent_fits hnum hden rfl
  rw [ratioExponent, hfit]
  refine ⟨le_max_right _ _, ?_, ?_⟩
  · have hmono : (2 : ℚ) ^ fit ≤ (2 : ℚ) ^ max fit leastExponent :=
      zpow_le_zpow_right₀ (by norm_num) (le_max_left _ _)
    have hb : (0 : ℚ) < 2 * binade := by
      rw [binade_eq]
      positivity
    exact lt_of_lt_of_le hhigh (mul_le_mul_of_nonneg_left hmono hb.le)
  · rcases le_total fit leastExponent with h | h
    · exact .inl (max_eq_right h)
    · right
      rw [max_eq_left h]
      exact hlow

/-! ## Doubles -/

/-- The number that a finite magnitude denotes. -/
def value (x : Binary64) : ℚ :=
  x.significand * (2 : ℚ) ^ x.exponent

/-- The lower end of the interval of a positive number. -/
def lowEnd (x : Binary64) : ℚ :=
  x.interval.1 * (2 : ℚ) ^ (x.exponent - 2)

/-- The upper end of the interval of a positive number. -/
def highEnd (x : Binary64) : ℚ :=
  x.interval.2.2 * (2 : ℚ) ^ (x.exponent - 2)

/-- A number lies in the interval of a positive number, or on an end of it if the significand is even. -/
def Covers (x : Binary64) (q : ℚ) : Prop :=
  if x.significand % 2 = 0 then x.lowEnd ≤ q ∧ q ≤ x.highEnd else x.lowEnd < q ∧ q < x.highEnd

theorem leastExponent_le (x : Binary64) : leastExponent ≤ x.exponent := by
  rw [exponent]
  split
  · exact le_refl _
  · rename_i h
    have hdiv : 1 ≤ x.place / binade := (Nat.le_div_iff_mul_le (by decide)).2 (by omega)
    omega

/-- The place of a magnitude by its significand and its exponent. -/
theorem place_eq (x : Binary64) : (x.exponent - leastExponent).toNat * binade + x.significand = x.place := by
  rw [exponent, significand]
  by_cases h : x.place < binade
  · rw [if_pos h, if_pos h, sub_self]
    simp
  · have hdiv : 1 ≤ x.place / binade := (Nat.le_div_iff_mul_le (by decide)).2 (by omega)
    have hexp : ((x.place / binade : ℕ) - 1 + leastExponent - leastExponent).toNat = x.place / binade - 1 := by omega
    have hsplit := Nat.div_add_mod' x.place binade
    have hmul : (x.place / binade - 1) * binade + binade = x.place / binade * binade := by
      rw [← Nat.succ_mul]
      congr 1
      omega
    rw [if_neg h, if_neg h, hexp]
    omega

theorem significand_lt (x : Binary64) : x.significand < 2 * binade := by
  have hmod : x.place % binade < binade := Nat.mod_lt _ (by decide)
  rw [significand]
  split <;> omega

theorem significand_pos (hx : 0 < x.place) : 0 < x.significand := by
  have hb : 0 < binade := by decide
  rw [significand]
  split <;> omega

/-- Only the finest magnitudes have significands of less than 53 bits. -/
theorem binade_le_significand (x : Binary64) : x.exponent = leastExponent ∨ binade ≤ x.significand := by
  rw [exponent, significand]
  split
  · exact .inl rfl
  · exact .inr (Nat.le_add_right _ _)

/-- At a multiple of `binade` there is a power of two. -/
theorem significand_of_power (h : x.place % binade = 0 ∧ 2 * binade ≤ x.place) : x.significand = binade := by
  have hb : 0 < binade := by decide
  rw [significand, if_neg (by omega), h.1, Nat.add_zero]

theorem exponent_le (hx : x.isFinite = true) : x.exponent ≤ 971 := by
  have hplace : x.place < 2047 * binade := of_decide_eq_true hx
  have hdiv : x.place / binade < 2047 := (Nat.div_lt_iff_lt_mul (by decide)).2 hplace
  rw [exponent, leastExponent]
  split <;> omega

theorem quarter_zpow (e : ℤ) : (2 : ℚ) ^ (e - 2) = (2 : ℚ) ^ e / 4 := by
  rw [zpow_sub₀ (by norm_num)]
  norm_num

theorem highEnd_eq (x : Binary64) : x.highEnd = (x.significand + 1 / 2) * (2 : ℚ) ^ x.exponent := by
  rw [highEnd, quarter_zpow, interval]
  push_cast
  ring

/-- The lower end is halfway to the next smaller number, which below a power of two is only half as far away. -/
theorem lowEnd_eq (hx : 0 < x.place) :
    x.lowEnd = (x.significand - if x.place % binade = 0 ∧ 2 * binade ≤ x.place then 1 / 4 else 1 / 2) *
      (2 : ℚ) ^ x.exponent := by
  have hm := significand_pos hx
  rw [lowEnd, quarter_zpow, interval]
  dsimp only
  split
  · have hcast : ((4 * x.significand - 1 : ℕ) : ℚ) = 4 * x.significand - 1 := by
      rw [Nat.cast_sub (by omega)]
      push_cast
      ring
    rw [hcast]
    ring
  · have hcast : ((4 * x.significand - 2 : ℕ) : ℚ) = 4 * x.significand - 2 := by
      rw [Nat.cast_sub (by omega)]
      push_cast
      ring
    rw [hcast]
    ring

/-- The lower end is no further away than half of the last place. -/
theorem half_le_lowEnd (hx : 0 < x.place) : (x.significand - 1 / 2) * (2 : ℚ) ^ x.exponent ≤ x.lowEnd := by
  rw [lowEnd_eq hx]
  apply mul_le_mul_of_nonneg_right _ (two_zpow_pos _).le
  split <;> linarith

/-- Above the finest magnitudes, the lower end of a power of two is a quarter of the last place away. -/
theorem lowEnd_of_binade (hx : 0 < x.place) (hm : x.significand = binade) (he : leastExponent < x.exponent) :
    x.lowEnd = (binade - 1 / 4) * (2 : ℚ) ^ x.exponent := by
  have hplace := x.place_eq
  have hpos : 1 ≤ (x.exponent - leastExponent).toNat := by omega
  have hmul := Nat.mul_le_mul_right binade hpos
  rw [hm] at hplace
  have hmod : x.place % binade = 0 := by
    rw [← hplace, Nat.add_mod_right, Nat.mul_mod_left]
  rw [lowEnd_eq hx, if_pos ⟨hmod, by omega⟩, hm]

theorem Covers.low_le (h : x.Covers q) : x.lowEnd ≤ q := by
  rw [Covers] at h
  split at h
  · exact h.1
  · exact h.1.le

theorem Covers.le_high (h : x.Covers q) : q ≤ x.highEnd := by
  rw [Covers] at h
  split at h
  · exact h.2
  · exact h.2.le

/-! ## What is rounded to a double -/

theorem two_mul_two_zpow_le {e' : ℤ} (h : e < e') : 2 * (2 : ℚ) ^ e ≤ (2 : ℚ) ^ e' := by
  have hmono : (2 : ℚ) ^ (e + 1) ≤ (2 : ℚ) ^ e' := zpow_le_zpow_right₀ (by norm_num) h
  rw [zpow_add_one₀ (by norm_num)] at hmono
  linarith

/-- A fraction of a greater exponent is greater than all that a double covers. -/
theorem exponent_le_of_covers (h : x.Covers q) (hlow : e = leastExponent ∨ binade * (2 : ℚ) ^ e ≤ q) :
    e ≤ x.exponent := by
  refine Classical.byContradiction fun hgt => ?_
  have hbinade : binade * (2 : ℚ) ^ e ≤ q := by
    rcases hlow with hE | hb
    · have := x.leastExponent_le
      omega
    · exact hb
  have hdouble := two_mul_two_zpow_le (Int.not_le.1 hgt)
  have hm : (x.significand : ℚ) + 1 ≤ 2 * binade := by exact_mod_cast x.significand_lt
  have hq := h.le_high
  rw [highEnd_eq] at hq
  have hend : ((x.significand : ℚ) + 1 / 2) * (2 : ℚ) ^ x.exponent ≤ (2 * binade - 1 / 2) * (2 : ℚ) ^ x.exponent :=
    mul_le_mul_of_nonneg_right (by linarith) (two_zpow_pos _).le
  have hP := two_zpow_pos x.exponent
  norm_num [binade] at hbinade hend
  linarith

/-- A fraction of a smaller exponent can be covered only by a power of two. -/
theorem significand_of_exponent_lt (hx : 0 < x.place) (h : x.Covers q) (hleast : leastExponent ≤ e)
    (hhigh : q < 2 * binade * (2 : ℚ) ^ e) (hlt : e < x.exponent) : x.significand = binade := by
  have hbinade : binade ≤ x.significand := by
    rcases x.binade_le_significand with hE | hm
    · omega
    · exact hm
  have hends : ((x.significand : ℚ) - 1 / 2) * (2 : ℚ) ^ x.exponent < binade * (2 : ℚ) ^ x.exponent := by
    have hb : (binade : ℚ) * (2 * (2 : ℚ) ^ e) ≤ binade * (2 : ℚ) ^ x.exponent :=
      mul_le_mul_of_nonneg_left (two_mul_two_zpow_le hlt) (Nat.cast_nonneg _)
    have hl := (half_le_lowEnd hx).trans h.low_le
    linarith
  have hcast : (x.significand : ℚ) < (binade + 1 : ℕ) := by
    have hlt' := lt_of_mul_lt_mul_right hends (two_zpow_pos _).le
    push_cast
    linarith
  have hle : x.significand < binade + 1 := by exact_mod_cast hcast
  omega

/--
A fraction in the interval of a double has its exponent, unless the double is a power of two and the fraction lies below
it: then the next smaller one.
-/
theorem exponent_of_covers (hx : 0 < x.place) (h : x.Covers q) (hleast : leastExponent ≤ e)
    (hhigh : q < 2 * binade * (2 : ℚ) ^ e) (hlow : e = leastExponent ∨ binade * (2 : ℚ) ^ e ≤ q) :
    e = x.exponent ∨
      e + 1 = x.exponent ∧ x.significand = binade ∧ (2 * binade - 1 / 2) * (2 : ℚ) ^ e ≤ q := by
  rcases (exponent_le_of_covers h hlow).eq_or_lt with heq | hlt
  · exact .inl heq
  · right
    have hm := significand_of_exponent_lt hx h hleast hhigh hlt
    have hq := h.low_le
    rw [lowEnd_of_binade hx hm (by omega)] at hq
    have he : e + 1 = x.exponent := by
      refine Classical.byContradiction fun hne => ?_
      have h₁ := two_mul_two_zpow_le (show e < e + 1 by omega)
      have h₂ := two_mul_two_zpow_le (show e + 1 < x.exponent by omega)
      have hR := two_zpow_pos e
      norm_num [binade] at hq hhigh
      linarith
    refine ⟨he, hm, ?_⟩
    rw [← he, zpow_add_one₀ (by norm_num)] at hq
    linarith

/-- What lies in the interval of a double is nearest to its significand. -/
theorem roundHalfEven_of_covers (hx : 0 < x.place) (hden : 0 < den) (h : x.Covers q)
    (hq : (num : ℚ) / den = q / (2 : ℚ) ^ x.exponent) : roundHalfEven num den = x.significand := by
  have hP := two_zpow_pos x.exponent
  have hlow := half_le_lowEnd hx
  have hhigh := x.highEnd_eq
  apply roundHalfEven_eq hden
  · rw [hq, le_div_iff₀ hP]
    exact hlow.trans h.low_le
  · rw [hq, div_le_iff₀ hP, ← hhigh]
    exact h.le_high
  · rw [hq, lt_div_iff₀ hP, div_lt_iff₀ hP, ← hhigh]
    rw [Covers] at h
    split at h
    · exact .inl ‹_›
    · exact .inr ⟨lt_of_le_of_lt hlow h.1, h.2⟩

/-- **A fraction** in the interval of a double is rounded to it. -/
theorem ofRatio_of_covers (hx : 0 < x.place) (hfin : x.isFinite = true) (hnum : num ≠ 0) (hden : den ≠ 0)
    (h : x.Covers ((num : ℚ) / den)) : ofRatio x.negative num den = x := by
  obtain ⟨hleast, hhigh, hlow⟩ := ratioExponent_spec hnum hden
  obtain ⟨hpos, hscaled⟩ := scaleDown_eq num (Nat.pos_of_ne_zero hden) (ratioExponent num den)
  rw [ofRatio, if_neg hnum]
  generalize ratioExponent num den = e at hleast hhigh hlow hpos hscaled ⊢
  have hplace : (e - leastExponent).toNat * binade +
      roundHalfEven (scaleDown num den e).1 (scaleDown num den e).2 = x.place := by
    rcases exponent_of_covers hx h hleast hhigh hlow with he | ⟨he, hm, hq⟩
    · rw [he] at hpos hscaled ⊢
      rw [roundHalfEven_of_covers hx hpos h hscaled, x.place_eq]
    · have hR := two_zpow_pos e
      have hround : roundHalfEven (scaleDown num den e).1 (scaleDown num den e).2 = 2 * binade := by
        apply roundHalfEven_eq hpos
        · rw [hscaled, le_div_iff₀ hR]
          push_cast
          exact hq
        · rw [hscaled, div_le_iff₀ hR]
          push_cast
          linarith
        · exact .inl (Nat.mul_mod_right 2 binade)
      have hnext : (x.exponent - leastExponent).toNat = (e - leastExponent).toNat + 1 := by omega
      have hx' := x.place_eq
      rw [hm, hnext, Nat.add_mul] at hx'
      rw [hround]
      omega
  have hbound : x.place < infinityPlace := of_decide_eq_true hfin
  dsimp only
  rw [hplace, if_pos hbound]

end RecordStore.Binary64
