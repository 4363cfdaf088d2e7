import RecordStore.Proofs.Number.Shortest

/-!
# Rounding keeps the order

`Binary64.nearestPlace q` is the place of the double nearest to a fraction `q`. It depends on the fraction alone, and a
greater one has no smaller place: **`Binary64.nearestPlace_mono`**. Every numeral is read as the double nearest to it,
those with the greatest and the smallest exponents too: **`Binary64.ofNumeral_eq`**. So numerals are never read in
reverse order (`Binary64.signedPlace_mono`, `Binary64.rank_mono`), though different ones may be read as one double.
-/

namespace RecordStore

/-- The number that a numeral denotes. -/
def Numeral.value (n : Numeral) : ℚ :=
  if n.negative then -n.magnitude else n.magnitude

namespace Binary64

variable {num den num' den' : ℕ} {q q' : ℚ}

/-! ## Whole numbers -/

/-- Halfway between two whole numbers, the even one is taken. -/
theorem roundHalfEven_even (hden : 0 < den) (h : 2 * num = 2 * (roundHalfEven num den * den) + den ∨
    2 * (roundHalfEven num den * den) = 2 * num + den) : roundHalfEven num den % 2 = 0 := by
  have hsplit : num / den * den + num % den = num := Nat.div_add_mod' num den
  have hrest : num % den < den := Nat.mod_lt num hden
  rw [roundHalfEven] at h ⊢
  generalize num / den = k at hsplit h ⊢
  generalize num % den = r at hsplit hrest h ⊢
  split at h
  · omega
  · split at h
    · rw [Nat.add_mul] at h
      omega
    · rename_i h₁ h₂
      rw [if_neg h₁, if_neg h₂]
      omega

/-- What a fraction is rounded to is even, or nearer than one half. -/
theorem roundHalfEven_tie (num : ℕ) (hden : 0 < den) : roundHalfEven num den % 2 = 0 ∨
    ((roundHalfEven num den : ℚ) - 1 / 2 < (num : ℚ) / den ∧ (num : ℚ) / den < roundHalfEven num den + 1 / 2) := by
  have hd : (0 : ℚ) < den := by exact_mod_cast hden
  obtain ⟨hhigh, hlow⟩ := roundHalfEven_near num hden
  by_cases hodd : roundHalfEven num den % 2 = 0
  · exact .inl hodd
  refine .inr ⟨lt_of_le_of_ne (by linarith) fun h => ?_, lt_of_le_of_ne (by linarith) fun h => ?_⟩
  · apply hodd (roundHalfEven_even hden (.inr ?_))
    rw [eq_div_iff hd.ne'] at h
    have : (2 * (roundHalfEven num den * den) : ℚ) = 2 * num + den := by linarith
    exact_mod_cast this
  · apply hodd (roundHalfEven_even hden (.inl ?_))
    rw [div_eq_iff hd.ne'] at h
    have : (2 * num : ℚ) = 2 * (roundHalfEven num den * den) + den := by linarith
    exact_mod_cast this

/-- A greater fraction has no smaller nearest whole number. -/
theorem roundHalfEven_mono (hden : 0 < den) (hden' : 0 < den') (h : (num : ℚ) / den ≤ (num' : ℚ) / den') :
    roundHalfEven num den ≤ roundHalfEven num' den' := by
  refine Classical.byContradiction fun hgt => ?_
  obtain ⟨-, hhigh⟩ := roundHalfEven_near num hden
  obtain ⟨hlow, -⟩ := roundHalfEven_near num' hden'
  have hnext : (roundHalfEven num' den' : ℚ) + 1 ≤ roundHalfEven num den := by exact_mod_cast Nat.not_le.1 hgt
  -- both fractions are halfway between the two whole numbers, so both of these are even
  have heven : roundHalfEven num den % 2 = 0 := (roundHalfEven_tie num hden).resolve_right fun hnear => by linarith
  have heven' : roundHalfEven num' den' % 2 = 0 :=
    (roundHalfEven_tie num' hden').resolve_right fun hnear => by linarith
  have hone : (roundHalfEven num den : ℚ) = roundHalfEven num' den' + 1 := by linarith
  have hsucc : roundHalfEven num den = roundHalfEven num' den' + 1 := by exact_mod_cast hone
  omega

/-! ## Fractions -/

/-- The place of a positive fraction, were there no greatest finite double. -/
def ratioPlace (num den : ℕ) : ℕ :=
  (ratioExponent num den - leastExponent).toNat * binade +
    roundHalfEven (scaleDown num den (ratioExponent num den)).1 (scaleDown num den (ratioExponent num den)).2

/-- The significand that a fraction is rounded to has at most one bit more than fits. -/
theorem ratioPlace_bounds (hnum : num ≠ 0) (hden : den ≠ 0) :
    ratioPlace num den ≤ (ratioExponent num den - leastExponent).toNat * binade + 2 * binade ∧
      (leastExponent < ratioExponent num den →
        (ratioExponent num den - leastExponent).toNat * binade + binade ≤ ratioPlace num den) := by
  obtain ⟨-, hhigh, hlow⟩ := ratioExponent_spec hnum hden
  obtain ⟨hpos, hscaled⟩ := scaleDown_eq num (Nat.pos_of_ne_zero hden) (ratioExponent num den)
  rw [ratioPlace]
  generalize ratioExponent num den = e at hhigh hlow hpos hscaled ⊢
  obtain ⟨hnear, hnear'⟩ := roundHalfEven_near (scaleDown num den e).1 hpos
  rw [hscaled] at hnear hnear'
  have hR := two_zpow_pos e
  constructor
  · have hq : (num : ℚ) / den / (2 : ℚ) ^ e < 2 * binade := by rwa [div_lt_iff₀ hR]
    have hlt : (roundHalfEven (scaleDown num den e).1 (scaleDown num den e).2 : ℚ) < (2 * binade + 1 : ℕ) := by
      push_cast
      linarith
    have hle : roundHalfEven (scaleDown num den e).1 (scaleDown num den e).2 < 2 * binade + 1 := by exact_mod_cast hlt
    omega
  · intro he
    have hq : (binade : ℚ) ≤ (num : ℚ) / den / (2 : ℚ) ^ e := by
      rw [le_div_iff₀ hR]
      exact hlow.resolve_left he.ne'
    have hlt : (binade : ℚ) < (roundHalfEven (scaleDown num den e).1 (scaleDown num den e).2 + 1 : ℕ) := by
      push_cast
      linarith
    have hle : binade < roundHalfEven (scaleDown num den e).1 (scaleDown num den e).2 + 1 := by exact_mod_cast hlt
    omega

/-- A greater fraction has no smaller exponent. -/
theorem ratioExponent_mono (hnum : num ≠ 0) (hden : den ≠ 0) (hnum' : num' ≠ 0) (hden' : den' ≠ 0)
    (h : (num : ℚ) / den ≤ (num' : ℚ) / den') : ratioExponent num den ≤ ratioExponent num' den' := by
  refine Classical.byContradiction fun hgt => ?_
  obtain ⟨-, -, hlow⟩ := ratioExponent_spec hnum hden
  obtain ⟨hleast', hhigh', -⟩ := ratioExponent_spec hnum' hden'
  have hlow := hlow.resolve_left (by omega)
  have hdouble := two_mul_two_zpow_le (Int.not_le.1 hgt)
  have hmul : (binade : ℚ) * (2 * (2 : ℚ) ^ ratioExponent num' den') ≤ binade * (2 : ℚ) ^ ratioExponent num den :=
    mul_le_mul_of_nonneg_left hdouble (Nat.cast_nonneg _)
  linarith

/-- A greater fraction has no smaller place. -/
theorem ratioPlace_mono (hnum : num ≠ 0) (hden : den ≠ 0) (hnum' : num' ≠ 0) (hden' : den' ≠ 0)
    (h : (num : ℚ) / den ≤ (num' : ℚ) / den') : ratioPlace num den ≤ ratioPlace num' den' := by
  obtain ⟨hleast, -, -⟩ := ratioExponent_spec hnum hden
  rcases (ratioExponent_mono hnum hden hnum' hden' h).eq_or_lt with heq | hlt
  · -- at one exponent, the significands are in order
    obtain ⟨hpos, hscaled⟩ := scaleDown_eq num (Nat.pos_of_ne_zero hden) (ratioExponent num den)
    obtain ⟨hpos', hscaled'⟩ := scaleDown_eq num' (Nat.pos_of_ne_zero hden') (ratioExponent num' den')
    rw [ratioPlace, ratioPlace, ← heq]
    rw [← heq] at hpos' hscaled'
    refine Nat.add_le_add_left (roundHalfEven_mono hpos hpos' ?_) _
    rw [hscaled, hscaled']
    exact div_le_div_of_nonneg_right h (two_zpow_pos _).le
  · -- a greater exponent outweighs the significand
    have hhigh := (ratioPlace_bounds hnum hden).1
    have hlow := (ratioPlace_bounds hnum' hden').2 (by omega)
    have hmul := Nat.mul_le_mul_right binade
      (show (ratioExponent num den - leastExponent).toNat + 1 ≤ (ratioExponent num' den' - leastExponent).toNat by
        omega)
    rw [Nat.add_mul] at hmul
    omega

/-- Far above all finite doubles, a place lies beyond theirs. -/
theorem infinityPlace_le_ratioPlace (hnum : num ≠ 0) (hden : den ≠ 0) (h : (2 : ℚ) ^ (1024 : ℤ) ≤ (num : ℚ) / den) :
    infinityPlace ≤ ratioPlace num den := by
  obtain ⟨-, hhigh, -⟩ := ratioExponent_spec hnum hden
  have he : 971 < ratioExponent num den := by
    have hlt : (2 : ℚ) ^ (1024 : ℤ) < (2 : ℚ) ^ (53 + ratioExponent num den) := by
      rw [zpow_add₀ (by norm_num)]
      calc (2 : ℚ) ^ (1024 : ℤ) ≤ (num : ℚ) / den := h
        _ < 2 * binade * (2 : ℚ) ^ ratioExponent num den := hhigh
        _ = (2 : ℚ) ^ (53 : ℤ) * (2 : ℚ) ^ ratioExponent num den := by
            rw [binade_eq]
            norm_num
    have := (zpow_lt_zpow_iff_right₀ (by norm_num)).1 hlt
    omega
  have hlow := (ratioPlace_bounds hnum hden).2 (by rw [leastExponent]; omega)
  have hmul := Nat.mul_le_mul_right binade
    (show 2046 ≤ (ratioExponent num den - leastExponent).toNat by rw [leastExponent]; omega)
  rw [infinityPlace]
  omega

/-- Below half of the least positive double, the place is zero. -/
theorem ratioPlace_eq_zero (hnum : num ≠ 0) (hden : den ≠ 0) (h : (num : ℚ) / den < (2 : ℚ) ^ (-1075 : ℤ)) :
    ratioPlace num den = 0 := by
  obtain ⟨hleast, -, hlow⟩ := ratioExponent_spec hnum hden
  have he : ratioExponent num den = leastExponent := by
    rcases hlow with he | hlow
    · exact he
    · exfalso
      have hle : (2 : ℚ) ^ (-1075 : ℤ) ≤ (2 : ℚ) ^ ratioExponent num den :=
        zpow_le_zpow_right₀ (by norm_num) (by rw [leastExponent] at hleast; omega)
      have hone : (1 : ℚ) ≤ binade := by norm_num [binade]
      have hmul := mul_le_mul_of_nonneg_right hone (two_zpow_pos (ratioExponent num den)).le
      linarith
  obtain ⟨hpos, hscaled⟩ := scaleDown_eq num (Nat.pos_of_ne_zero hden) leastExponent
  obtain ⟨-, hnear⟩ := roundHalfEven_near (scaleDown num den leastExponent).1 hpos
  have hhalf : (num : ℚ) / den / (2 : ℚ) ^ leastExponent < 1 / 2 := by
    rw [div_lt_iff₀ (two_zpow_pos _)]
    calc (num : ℚ) / den < (2 : ℚ) ^ (-1075 : ℤ) := h
      _ = 1 / 2 * (2 : ℚ) ^ leastExponent := by
          rw [show (-1075 : ℤ) = -1 + leastExponent by rw [leastExponent]; norm_num, zpow_add₀ (by norm_num)]
          norm_num
  rw [hscaled] at hnear
  have hlt : (roundHalfEven (scaleDown num den leastExponent).1 (scaleDown num den leastExponent).2 : ℚ) < (1 : ℕ) := by
    push_cast
    linarith
  have hzero : roundHalfEven (scaleDown num den leastExponent).1 (scaleDown num den leastExponent).2 < 1 := by
    exact_mod_cast hlt
  rw [ratioPlace, he, sub_self, Int.toNat_zero, Nat.zero_mul, Nat.zero_add]
  omega

/-! ## The nearest double -/

/-- The place of the double nearest to a fraction that is not negative. -/
def nearestPlace (q : ℚ) : ℕ :=
  if q = 0 then 0 else min (ratioPlace q.num.natAbs q.den) infinityPlace

theorem nearestPlace_zero : nearestPlace 0 = 0 := rfl

theorem nearestPlace_le (q : ℚ) : nearestPlace q ≤ infinityPlace := by
  rw [nearestPlace]
  split
  · exact Nat.zero_le _
  · exact min_le_right _ _

/-- A fraction in lowest terms. -/
theorem natAbs_num_div_den (hq : 0 < q) : ((q.num.natAbs : ℕ) : ℚ) / (q.den : ℚ) = q := by
  have hnum : ((q.num.natAbs : ℕ) : ℚ) = (q.num : ℚ) := by
    have hint : ((q.num.natAbs : ℕ) : ℤ) = q.num := Int.natAbs_of_nonneg (Rat.num_pos.2 hq).le
    simpa only [Int.cast_natCast] using congrArg (fun z : ℤ => (z : ℚ)) hint
  rw [hnum, Rat.num_div_den]

/-- **A greater fraction** has no smaller place. -/
theorem nearestPlace_mono (hq : 0 ≤ q) (h : q ≤ q') : nearestPlace q ≤ nearestPlace q' := by
  rcases hq.eq_or_lt with rfl | hpos
  · rw [nearestPlace_zero]
    exact Nat.zero_le _
  · have hpos' : 0 < q' := lt_of_lt_of_le hpos h
    rw [nearestPlace, nearestPlace, if_neg hpos.ne', if_neg hpos'.ne']
    refine min_le_min_right _ (ratioPlace_mono ?_ q.den_nz ?_ q'.den_nz ?_)
    · exact Int.natAbs_ne_zero.2 (Rat.num_pos.2 hpos).ne'
    · exact Int.natAbs_ne_zero.2 (Rat.num_pos.2 hpos').ne'
    · rwa [natAbs_num_div_den hpos, natAbs_num_div_den hpos']

/-- The place of a fraction does not depend on how it is written. -/
theorem nearestPlace_eq (hnum : num ≠ 0) (hden : den ≠ 0) (hq : (num : ℚ) / den = q) :
    nearestPlace q = min (ratioPlace num den) infinityPlace := by
  have hpos : 0 < q := by
    rw [← hq]
    have hn : (0 : ℚ) < num := by exact_mod_cast Nat.pos_of_ne_zero hnum
    have hd : (0 : ℚ) < den := by exact_mod_cast Nat.pos_of_ne_zero hden
    exact div_pos hn hd
  have hlow : q.num.natAbs ≠ 0 := Int.natAbs_ne_zero.2 (Rat.num_pos.2 hpos).ne'
  have heq : ((q.num.natAbs : ℕ) : ℚ) / (q.den : ℚ) = (num : ℚ) / den := by rw [natAbs_num_div_den hpos, hq]
  have hplace : ratioPlace q.num.natAbs q.den = ratioPlace num den :=
    le_antisymm (ratioPlace_mono hlow q.den_nz hnum hden heq.le) (ratioPlace_mono hnum hden hlow q.den_nz heq.ge)
  rw [nearestPlace, if_neg hpos.ne', hplace]

/-- A fraction is rounded to the double nearest to it. -/
theorem ofRatio_eq (negative : Bool) (hden : den ≠ 0) :
    ofRatio negative num den = ⟨negative, nearestPlace ((num : ℚ) / den)⟩ := by
  by_cases hnum : num = 0
  · rw [hnum, ofRatio, if_pos rfl, Nat.cast_zero, zero_div, nearestPlace_zero, zero]
  · have hplace : (ratioExponent num den - leastExponent).toNat * binade + roundHalfEven
        (scaleDown num den (ratioExponent num den)).1 (scaleDown num den (ratioExponent num den)).2 =
        ratioPlace num den := rfl
    rw [nearestPlace_eq hnum hden rfl, ofRatio, if_neg hnum]
    dsimp only
    rw [hplace]
    by_cases hfits : ratioPlace num den < infinityPlace
    · rw [if_pos hfits, min_eq_left hfits.le]
    · rw [if_neg hfits, min_eq_right (Nat.not_lt.1 hfits), infinity]

/-! ## Numerals -/

theorem magnitude_nonneg (n : Numeral) : 0 ≤ n.magnitude :=
  mul_nonneg (Nat.cast_nonneg _) (ten_zpow_pos _).le

theorem tenTo_ne_zero (k : ℕ) : Numeral.tenTo k ≠ 0 := Nat.ne_of_gt (Nat.pow_pos (by omega))

theorem cast_tenTo (k : ℕ) : ((Numeral.tenTo k : ℕ) : ℚ) = (10 : ℚ) ^ k := by
  rw [Numeral.tenTo, Nat.pow_eq]
  push_cast
  rfl

/-- A positive fraction is one of whole numbers. -/
theorem exists_ratio (hq : 0 < q) : ∃ num den : ℕ, num ≠ 0 ∧ den ≠ 0 ∧ (num : ℚ) / den = q :=
  ⟨q.num.natAbs, q.den, Int.natAbs_ne_zero.2 (Rat.num_pos.2 hq).ne', q.den_nz, natAbs_num_div_den hq⟩

theorem nearestPlace_of_large (h : (2 : ℚ) ^ (1024 : ℤ) ≤ q) : nearestPlace q = infinityPlace := by
  obtain ⟨num, den, hnum, hden, rfl⟩ := exists_ratio (lt_of_lt_of_le (two_zpow_pos _) h)
  rw [nearestPlace_eq hnum hden rfl, min_eq_right (infinityPlace_le_ratioPlace hnum hden h)]

theorem nearestPlace_of_small (hq : 0 < q) (h : q < (2 : ℚ) ^ (-1075 : ℤ)) : nearestPlace q = 0 := by
  obtain ⟨num, den, hnum, hden, rfl⟩ := exists_ratio hq
  rw [nearestPlace_eq hnum hden rfl, ratioPlace_eq_zero hnum hden h]
  exact Nat.zero_min _

/-- **A numeral** is read as the double nearest to it. -/
theorem ofNumeral_eq (n : Numeral) : ofNumeral n = ⟨n.negative, nearestPlace n.magnitude⟩ := by
  by_cases hdigits : n.digits = 0
  · rw [ofNumeral, if_pos hdigits, Numeral.magnitude, hdigits, Nat.cast_zero, zero_mul, nearestPlace_zero, zero]
  have hpos : 0 < n.magnitude := mul_pos (by exact_mod_cast Nat.pos_of_ne_zero hdigits) (ten_zpow_pos _)
  rw [ofNumeral, if_neg hdigits]
  by_cases hlarge : 400 < n.exponent
  · rw [if_pos hlarge, nearestPlace_of_large (le_magnitude_of_exponent hdigits hlarge), infinity]
  rw [if_neg hlarge]
  by_cases hsmall : n.exponent < -400 - (n.digits.log2 : ℤ)
  · rw [if_pos hsmall, nearestPlace_of_small hpos (magnitude_lt_of_exponent hsmall), zero]
  rw [if_neg hsmall]
  by_cases he : n.exponent < 0
  · obtain ⟨k, hk⟩ : ∃ k : ℕ, n.exponent = -k := ⟨(-n.exponent).toNat, by omega⟩
    rw [if_pos he, hk, neg_neg, Int.toNat_natCast, ofRatio_eq _ (tenTo_ne_zero k), Numeral.magnitude, hk, zpow_neg,
      zpow_natCast, ← div_eq_mul_inv, cast_tenTo]
  · obtain ⟨k, hk⟩ : ∃ k : ℕ, n.exponent = k := ⟨n.exponent.toNat, by omega⟩
    rw [if_neg he, hk, Int.toNat_natCast, ofRatio_eq _ Nat.one_ne_zero, Numeral.magnitude, hk, zpow_natCast,
      Nat.cast_mul, cast_tenTo, Nat.cast_one, div_one]

/-- A numeral is never read as what is not a number. -/
theorem isNaN_ofNumeral (n : Numeral) : (ofNumeral n).isNaN = false := by
  rw [ofNumeral_eq]
  exact decide_eq_false (Nat.not_lt.2 (nearestPlace_le _))

/-! ## Order -/

/-- **A greater numeral** is not read as a smaller value. -/
theorem signedPlace_mono {m n : Numeral} (h : m.value ≤ n.value) :
    (ofNumeral m).signedPlace ≤ (ofNumeral n).signedPlace := by
  have hm := magnitude_nonneg m
  have hn := magnitude_nonneg n
  rw [Numeral.value, Numeral.value] at h
  rw [ofNumeral_eq, ofNumeral_eq, signedPlace, signedPlace]
  dsimp only
  cases hms : m.negative <;> cases hns : n.negative <;>
    simp only [hms, hns, Bool.false_eq_true, if_true, if_false] at h ⊢
  · exact_mod_cast nearestPlace_mono hm h
  · -- both are zero
    have hm0 : m.magnitude = 0 := by linarith
    have hn0 : n.magnitude = 0 := by linarith
    rw [hm0, hn0, nearestPlace_zero]
    rfl
  · omega
  · have hplace := nearestPlace_mono hn (neg_le_neg_iff.1 h)
    omega

/-- **A greater numeral** has no lower rank in the order of all patterns. -/
theorem rank_mono {m n : Numeral} (h : m.value < n.value) : (ofNumeral m).rank ≤ (ofNumeral n).rank := by
  have hm := magnitude_nonneg m
  have hn := magnitude_nonneg n
  rw [Numeral.value, Numeral.value] at h
  rw [ofNumeral_eq, ofNumeral_eq, rank, rank]
  dsimp only
  cases hms : m.negative <;> cases hns : n.negative <;>
    simp only [hms, hns, Bool.false_eq_true, if_true, if_false] at h ⊢
  · exact_mod_cast nearestPlace_mono hm h.le
  · linarith
  · omega
  · have hplace := nearestPlace_mono hn (neg_lt_neg_iff.1 h).le
    omega

/-! ## Numerals that denote doubles -/

theorem value_of_place_zero {x : Binary64} (h : x.place = 0) : x.value = 0 := by
  rw [value, significand, if_pos (by rw [h]; decide), h, Nat.cast_zero, zero_mul]

/-- The magnitude of a double is given by its place. -/
theorem value_of_place {x y : Binary64} (h : x.place = y.place) : x.value = y.value := by
  rw [value, value, significand, significand, exponent, exponent, h]

/-- A numeral that denotes a finite double is read as it. -/
theorem ofNumeral_of_value {x : Binary64} (hx : x.isFinite = true) {n : Numeral} (h : n.magnitude = x.value) :
    ofNumeral n = ⟨n.negative, x.place⟩ := by
  by_cases hzero : x.place = 0
  · rw [ofNumeral_eq, h, value_of_place_zero hzero, nearestPlace_zero, hzero]
  · -- the sign has no part in the interval of a double
    have hcovers : Covers ⟨n.negative, x.place⟩ n.magnitude := by
      rw [h]
      exact covers_value (x := ⟨n.negative, x.place⟩) (Nat.pos_of_ne_zero hzero)
    exact ofNumeral_of_covers (x := ⟨n.negative, x.place⟩) (Nat.pos_of_ne_zero hzero) hx rfl hcovers

/-- **Different numerals that denote finite doubles** are read as different values. -/
theorem value_eq_of_signedPlace {x y : Binary64} (hx : x.isFinite = true) (hy : y.isFinite = true) {m n : Numeral}
    (hm : m.magnitude = x.value) (hn : n.magnitude = y.value)
    (h : (ofNumeral m).signedPlace = (ofNumeral n).signedPlace) : m.value = n.value := by
  rw [ofNumeral_of_value hx hm, ofNumeral_of_value hy hn, signedPlace, signedPlace] at h
  dsimp only at h
  have hplace : x.place = y.place := by
    split at h <;> split at h <;> omega
  have hmagnitude : m.magnitude = n.magnitude := by rw [hm, hn, value_of_place hplace]
  by_cases hzero : x.place = 0
  · rw [Numeral.value, Numeral.value, ← hmagnitude, hm, value_of_place_zero hzero, neg_zero, ite_self, ite_self]
  · have hsign : m.negative = n.negative := by
      cases hms : m.negative <;> cases hns : n.negative <;>
        simp only [hms, hns, Bool.false_eq_true, if_true, if_false] at h ⊢ <;> omega
    rw [Numeral.value, Numeral.value, hmagnitude, hsign]

end Binary64

end RecordStore
