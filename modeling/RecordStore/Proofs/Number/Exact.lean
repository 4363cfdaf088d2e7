import RecordStore.Proofs.Number.Monotone

/-!
# Numerals that doubles show unchanged

A positive fraction is covered by the double that it is rounded to (`Binary64.covers_of_nearestPlace`). If the double
has its full precision and the fraction at most fifteen significant digits, then the interval of the double holds no
other multiple of the last of these digits, and the search for the shortest decimal ends at the fraction. So the text of
a double denotes what was read: **`Numeral.printed_ofNumeral`**. It never denotes a number of more than seventeen
significant digits: **`Numeral.hasDigits_of_printed`**.
-/

namespace RecordStore

namespace Binary64

variable {x : Binary64} {q : ℚ} {e g : ℤ}

/-! ## What a double covers -/

/-- The significand and the exponent of the double at a place. -/
theorem significand_of_place {k r : ℕ} (h : x.place = k * binade + r) (hhigh : r < 2 * binade)
    (hlow : k = 0 ∨ binade ≤ r) : x.significand = r ∧ x.exponent = k + leastExponent := by
  have hb : 0 < binade := by decide
  rw [significand, exponent]
  by_cases hr : r < binade
  · obtain rfl : k = 0 := hlow.resolve_right (by omega)
    rw [Nat.zero_mul, Nat.zero_add] at h
    rw [if_pos (by omega), if_pos (by omega), h, Nat.cast_zero, zero_add]
    exact ⟨rfl, rfl⟩
  · obtain ⟨rest, rfl⟩ := Nat.exists_eq_add_of_le (Nat.not_lt.1 hr)
    have hplace : x.place = rest + binade * (k + 1) := by
      rw [h, Nat.mul_succ, Nat.mul_comm]
      omega
    have hge : ¬x.place < binade := by
      rw [hplace, Nat.mul_succ]
      omega
    rw [if_neg hge, if_neg hge, hplace, Nat.add_mul_mod_self_left, Nat.mod_eq_of_lt (by omega),
      Nat.add_mul_div_left _ _ hb, Nat.div_eq_of_lt (by omega)]
    refine ⟨rfl, ?_⟩
    push_cast
    ring

/-- Between two numbers that a double covers, it covers all. -/
theorem Covers.between {q₁ q₂ : ℚ} (h₁ : x.Covers q₁) (h₂ : x.Covers q₂) (hlow : q₁ ≤ q) (hhigh : q ≤ q₂) :
    x.Covers q := by
  rw [Covers] at h₁ h₂ ⊢
  split
  · rename_i heven
    rw [if_pos heven] at h₁ h₂
    exact ⟨h₁.1.trans hlow, hhigh.trans h₂.2⟩
  · rename_i hodd
    rw [if_neg hodd] at h₁ h₂
    exact ⟨h₁.1.trans_le hlow, hhigh.trans_lt h₂.2⟩

/-- Two numbers that a double covers are at most its last place apart. -/
theorem Covers.sub_le {q₁ q₂ : ℚ} (hx : 0 < x.place) (h₁ : x.Covers q₁) (h₂ : x.Covers q₂) :
    q₂ - q₁ ≤ (2 : ℚ) ^ x.exponent := by
  have hlow := (half_le_lowEnd hx).trans h₁.low_le
  have hhigh := x.highEnd_eq ▸ h₂.le_high
  linarith

/-- What is at most half of the last place away from a double is covered, or half as much below a power of two. -/
theorem covers_of_half (hx : 0 < x.place) (hlow : (x.significand - 1 / 2) * (2 : ℚ) ^ x.exponent ≤ q)
    (hhigh : q ≤ (x.significand + 1 / 2) * (2 : ℚ) ^ x.exponent)
    (hpower : x.exponent = leastExponent ∨ (binade - 1 / 4) * (2 : ℚ) ^ x.exponent ≤ q)
    (htie : x.significand % 2 = 0 ∨ ((x.significand - 1 / 2) * (2 : ℚ) ^ x.exponent < q ∧
      q < (x.significand + 1 / 2) * (2 : ℚ) ^ x.exponent)) : x.Covers q := by
  rw [Covers, highEnd_eq, lowEnd_eq hx]
  by_cases hplace : x.place % binade = 0 ∧ 2 * binade ≤ x.place
  · have hsig := significand_of_power hplace
    have hexp : x.exponent ≠ leastExponent := by
      intro h
      have hsplit := x.place_eq
      rw [h, hsig, sub_self, Int.toNat_zero, Nat.zero_mul] at hsplit
      omega
    rw [if_pos hplace, if_pos (by rw [hsig]; rfl), hsig]
    rw [hsig] at hhigh
    exact ⟨hpower.resolve_left hexp, hhigh⟩
  · rw [if_neg hplace]
    split
    · exact ⟨hlow, hhigh⟩
    · rename_i hodd
      exact htie.resolve_left hodd

/-- The same, where the significand was carried over into the next binade. -/
theorem covers_of_carry (hx : 0 < x.place) (hsig : x.significand = binade) (hexp : x.exponent = e + 1)
    (hlow : (2 * binade - 1 / 2) * (2 : ℚ) ^ e ≤ q) (hhigh : q ≤ 2 * binade * (2 : ℚ) ^ e) : x.Covers q := by
  have hdouble : (2 : ℚ) ^ x.exponent = 2 * (2 : ℚ) ^ e := by
    rw [hexp, zpow_add_one₀ (by norm_num), mul_comm]
  have hP := two_zpow_pos e
  refine covers_of_half hx ?_ ?_ (.inr ?_) (.inl (by rw [hsig]; rfl)) <;> rw [hdouble]
  · rw [hsig]
    linarith
  · rw [hsig]
    linarith
  · linarith

/-- **A fraction** that is rounded to a positive finite double is covered by it. -/
theorem covers_of_nearestPlace (hq : 0 < q) (hx : 0 < x.place) (hfin : x.isFinite = true)
    (h : nearestPlace q = x.place) : x.Covers q := by
  obtain ⟨num, den, hnum, hden, rfl⟩ := exists_ratio hq
  have hfinite : x.place < infinityPlace := of_decide_eq_true hfin
  rw [nearestPlace_eq hnum hden rfl] at h
  have hplace : ratioPlace num den = x.place := by omega
  obtain ⟨hleast, hqhigh, hqlow⟩ := ratioExponent_spec hnum hden
  obtain ⟨hmax, hmin⟩ := ratioPlace_bounds hnum hden
  obtain ⟨hpos, hscaled⟩ := scaleDown_eq num (Nat.pos_of_ne_zero hden) (ratioExponent num den)
  rw [ratioPlace] at hplace hmax hmin
  generalize ratioExponent num den = e at *
  obtain ⟨hnear, hnear'⟩ := roundHalfEven_near (scaleDown num den e).1 hpos
  have htie := roundHalfEven_tie (scaleDown num den e).1 hpos
  have hP := two_zpow_pos e
  rw [hscaled] at hnear hnear' htie
  generalize roundHalfEven (scaleDown num den e).1 (scaleDown num den e).2 = r at *
  generalize (num : ℚ) / den = q at *
  rw [sub_le_iff_le_add, div_le_iff₀ hP] at hnear
  rw [← sub_le_iff_le_add, le_div_iff₀ hP] at hnear'
  rw [lt_div_iff₀ hP, div_lt_iff₀ hP] at htie
  rcases Nat.lt_or_ge r (2 * binade) with hfits | hcarry
  · obtain ⟨hsig, hexp⟩ := significand_of_place hplace.symm hfits (by omega)
    obtain rfl : e = x.exponent := by omega
    rw [← hsig] at hnear hnear' htie
    refine covers_of_half hx hnear' hnear (hqlow.imp id fun hbinade => ?_) htie
    linarith
  · obtain rfl : r = 2 * binade := by omega
    obtain ⟨hsig, hexp⟩ := @significand_of_place x ((e - leastExponent).toNat + 1) binade
      (by rw [Nat.succ_mul]; omega) (by decide) (.inr le_rfl)
    push_cast at hnear' hexp
    exact covers_of_carry hx hsig (by omega) hnear' hqhigh.le

/-- What a positive finite double covers is rounded to it. -/
theorem nearestPlace_of_covers (hx : 0 < x.place) (hfin : x.isFinite = true) (h : x.Covers q) :
    nearestPlace q = x.place := by
  obtain ⟨num, den, hnum, hden, rfl⟩ := exists_ratio ((two_zpow_pos _).trans_le (h.ge hx))
  have hround := ofRatio_of_covers hx hfin hnum hden h
  rw [ofRatio_eq _ hden] at hround
  exact congrArg place hround

/-- What lies in the range of full precision is not rounded to zero. -/
theorem nearestPlace_pos (hq : (2 : ℚ) ^ (-1022 : ℤ) ≤ q) : 0 < nearestPlace q := by
  have hleast : nearestPlace ((2 : ℚ) ^ (-1074 : ℤ)) = 1 := by
    have hvalue : value ⟨false, 1⟩ = (2 : ℚ) ^ (-1074 : ℤ) := by
      rw [value, show significand ⟨false, 1⟩ = 1 from rfl, show exponent ⟨false, 1⟩ = -1074 from rfl, Nat.cast_one,
        one_mul]
    rw [← hvalue]
    exact nearestPlace_of_covers Nat.one_pos rfl (covers_value Nat.one_pos)
  have hmono := nearestPlace_mono (two_zpow_pos (-1074)).le
    ((zpow_le_zpow_right₀ (by norm_num) (by norm_num)).trans hq)
  omega

/-! ## The search for the shortest decimal -/

/-- A fraction is rounded down or up. -/
theorem roundHalfEven_floor (num den : ℕ) :
    roundHalfEven num den = num / den ∨ roundHalfEven num den = num / den + 1 := by
  rw [roundHalfEven]
  split
  · exact .inl rfl
  · split
    · exact .inr rfl
    · rcases Nat.mod_two_eq_zero_or_one (num / den) with h | h <;> rw [h]
      · exact .inl rfl
      · exact .inr rfl

/-- The two points of a grid that are tried lie on both sides of the double. -/
theorem gridNeighbours_eq (x : Binary64) (e : ℤ) : ∃ k : ℕ, k * (10 : ℚ) ^ e ≤ x.value ∧
    x.value < (k + 1 : ℕ) * (10 : ℚ) ^ e ∧ (x.gridNeighbours e = (k, k + 1) ∨ x.gridNeighbours e = (k + 1, k)) := by
  obtain ⟨hden, hscaled⟩ := x.quarters_scaleTen (4 * x.significand) e
  rw [value_eq] at hscaled
  rw [gridNeighbours]
  generalize (scaleTen (x.quarters (4 * x.significand)).1 (x.quarters (4 * x.significand)).2 (-e)).1 = num at *
  generalize (scaleTen (x.quarters (4 * x.significand)).1 (x.quarters (4 * x.significand)).2 (-e)).2 = den at *
  have hT := ten_zpow_pos e
  refine ⟨num / den, ?_, ?_, ?_⟩
  · rw [← le_div_iff₀ hT, ← hscaled]
    exact not_lt.1 fun hlt => Nat.lt_irrefl _ ((div_lt_iff hden).2 hlt)
  · rw [← div_lt_iff₀ hT, ← hscaled, ← div_lt_iff hden]
    exact Nat.lt_succ_self _
  · rcases roundHalfEven_floor num den with h | h
    · rw [h, if_pos rfl]
      exact .inl rfl
    · rw [h, if_neg (Nat.succ_ne_self _), Nat.add_sub_cancel]
      exact .inr rfl

/-- **A grid with a point** that a double covers has one next to the double. -/
theorem onGrid_of_covers (hx : 0 < x.place) {m : ℕ} (h : x.Covers (m * (10 : ℚ) ^ e)) : ∃ k, x.onGrid e = some k := by
  obtain ⟨k, hlow, hhigh, hpoints⟩ := x.gridNeighbours_eq e
  have hT := ten_zpow_pos e
  have hcovers : x.Covers (k * (10 : ℚ) ^ e) ∨ x.Covers ((k + 1 : ℕ) * (10 : ℚ) ^ e) := by
    rcases Nat.lt_or_ge k m with hm | hm
    · right
      have hle : ((k + 1 : ℕ) : ℚ) ≤ m := by exact_mod_cast hm
      exact (covers_value hx).between h hhigh.le (mul_le_mul_of_nonneg_right hle hT.le)
    · left
      have hle : (m : ℚ) ≤ k := by exact_mod_cast hm
      exact h.between (covers_value hx) (mul_le_mul_of_nonneg_right hle hT.le) hlow
  rw [← roundsBack_iff, ← roundsBack_iff] at hcovers
  rw [onGrid]
  split
  · exact ⟨_, rfl⟩
  · split
    · exact ⟨_, rfl⟩
    · rename_i h₁ h₂
      rcases hpoints with hp | hp <;> rw [hp] at h₁ h₂
      · exact absurd hcovers (not_or.2 ⟨h₁, h₂⟩)
      · exact absurd hcovers (not_or.2 ⟨h₂, h₁⟩)

/-- The search does not pass over a grid with a point that the double covers. -/
theorem firstGrid_ge (hx : 0 < x.place) {m tries : ℕ} (h : x.Covers (m * (10 : ℚ) ^ g)) (hle : g ≤ e)
    (hlt : e - tries < g) : g ≤ (x.firstGrid tries e).exponent := by
  induction tries generalizing e with
  | zero =>
    rw [firstGrid]
    exact hle
  | succ tries ih =>
    rw [firstGrid]
    cases hgrid : x.onGrid e with
    | some k => exact hle
    | none =>
      have hne : g ≠ e := by
        rintro rfl
        obtain ⟨k, hk⟩ := onGrid_of_covers hx h
        rw [hk] at hgrid
        exact absurd hgrid (Option.some_ne_none k)
      push_cast at hlt
      exact ih (by omega) (by omega)

/-! ## Decimals of few digits -/

/-- Two numbers on one grid that a double covers are one, if the grid is wider than the last place of the double. -/
theorem eq_of_covers_grid (hx : 0 < x.place) {k m : ℕ} (hk : x.Covers (k * (10 : ℚ) ^ g))
    (hm : x.Covers (m * (10 : ℚ) ^ g)) (hwide : (2 : ℚ) ^ x.exponent < (10 : ℚ) ^ g) : k = m := by
  have hT := ten_zpow_pos g
  have hapart : ∀ {k m : ℕ}, x.Covers (k * (10 : ℚ) ^ g) → x.Covers (m * (10 : ℚ) ^ g) → m ≤ k := by
    intro k m hk hm
    refine Classical.byContradiction fun hlt => ?_
    have hnext : (k : ℚ) + 1 ≤ m := by exact_mod_cast Nat.not_le.1 hlt
    have hmul := mul_le_mul_of_nonneg_right hnext hT.le
    have := hk.sub_le hx hm
    linarith
  exact le_antisymm (hapart hm hk) (hapart hk hm)

/-- A double of full precision has a significand of 53 bits. -/
theorem binade_le_significand_of_covers (h : x.Covers q) (hq : (2 : ℚ) ^ (-1022 : ℤ) ≤ q) :
    binade ≤ x.significand := by
  rcases x.binade_le_significand with hexp | hsig
  · refine Classical.byContradiction fun hlt => ?_
    have hsig : (x.significand : ℚ) + 1 ≤ binade := by exact_mod_cast Nat.not_le.1 hlt
    have hhigh := h.le_high
    rw [highEnd_eq, hexp, leastExponent] at hhigh
    have hP := two_zpow_pos (-1074)
    have hpower : (2 : ℚ) ^ (-1022 : ℤ) = binade * (2 : ℚ) ^ (-1074 : ℤ) := by
      rw [binade_eq, ← zpow_add₀ (by norm_num)]
      norm_num
    have hmul := mul_le_mul_of_nonneg_right hsig hP.le
    linarith
  · exact hsig

/-- At a full precision, fewer than `10 ^ 15` units reach a double only if the unit is wider than its last place. -/
theorem two_zpow_lt_ten_zpow (hx : 0 < x.place) (hsig : binade ≤ x.significand) {k : ℕ} (hk : k < 10 ^ 15)
    (h : x.Covers (k * (10 : ℚ) ^ e)) : (2 : ℚ) ^ x.exponent < (10 : ℚ) ^ e := by
  have hsig : (binade : ℚ) ≤ x.significand := by exact_mod_cast hsig
  have hk : (k : ℚ) ≤ 10 ^ 15 := by exact_mod_cast hk.le
  have hlow := (half_le_lowEnd hx).trans h.low_le
  have hP := two_zpow_pos x.exponent
  have hmul := mul_le_mul_of_nonneg_right hk (ten_zpow_pos e).le
  have hmul' := mul_le_mul_of_nonneg_right hsig hP.le
  norm_num [binade] at hmul hmul'
  linarith

/-- A number on a coarser grid lies on a finer one. -/
theorem exists_finer (h : g ≤ e) (k : ℕ) : ∃ m : ℕ, (k : ℚ) * (10 : ℚ) ^ e = m * (10 : ℚ) ^ g := by
  obtain ⟨n, rfl⟩ := Int.le.dest h
  refine ⟨k * 10 ^ n, ?_⟩
  rw [zpow_add₀ (by norm_num), zpow_natCast]
  push_cast
  ring

/-- The first digit of a double of full precision is wider than its last place. -/
theorem two_zpow_lt_leadingExponent (hx : 0 < x.place) (hfin : x.isFinite = true) (hsig : binade ≤ x.significand) :
    (2 : ℚ) ^ x.exponent < (10 : ℚ) ^ x.leadingExponent := by
  have hsig : (binade : ℚ) ≤ x.significand := by exact_mod_cast hsig
  have hvalue := (leadingExponent_spec hx hfin).2
  rw [value, zpow_add_one₀ (by norm_num)] at hvalue
  have hP := two_zpow_pos x.exponent
  have hmul := mul_le_mul_of_nonneg_right hsig hP.le
  norm_num [binade] at hmul hvalue
  linarith

/-- Fewer than `10 ^ 15` units reach a double only if the unit is one of its first sixteen digits. -/
theorem leadingExponent_lt (hx : 0 < x.place) (hfin : x.isFinite = true) {k : ℕ} (hk : k < 10 ^ 15)
    (h : x.Covers (k * (10 : ℚ) ^ e)) : x.leadingExponent - 16 < e := by
  refine Classical.byContradiction fun hfar => ?_
  have hunit : (10 : ℚ) ^ e ≤ (10 : ℚ) ^ (x.leadingExponent - 16) :=
    zpow_le_zpow_right₀ (by norm_num) (Int.not_lt.1 hfar)
  have hk : (k : ℚ) ≤ 10 ^ 15 := by exact_mod_cast hk.le
  have hmul : k * (10 : ℚ) ^ e ≤ 10 ^ 15 * (10 : ℚ) ^ (x.leadingExponent - 16) :=
    mul_le_mul hk hunit (ten_zpow_pos _).le (by norm_num)
  have hlead := (leadingExponent_spec hx hfin).1
  have hsig : (1 : ℚ) ≤ x.significand := by exact_mod_cast significand_pos hx
  have hhalf := mul_le_mul_of_nonneg_right hsig (two_zpow_pos x.exponent).le
  have hlow := (half_le_lowEnd hx).trans h.low_le
  have hL := ten_zpow_pos x.leadingExponent
  rw [zpow_sub₀ (by norm_num)] at hmul
  rw [value] at hlead
  norm_num at hmul
  linarith

/-- **A number of at most fifteen digits** that is rounded to a double of full precision is its shortest decimal. -/
theorem shortest_eq (hx : 0 < x.place) (hfin : x.isFinite = true) {k : ℕ} (hk : k < 10 ^ 15)
    (h : x.Covers (k * (10 : ℚ) ^ e)) (hnormal : (2 : ℚ) ^ (-1022 : ℤ) ≤ k * (10 : ℚ) ^ e) :
    x.shortest.value = k * (10 : ℚ) ^ e := by
  have hsig := binade_le_significand_of_covers h hnormal
  -- the coarsest grid that is searched and has the number on it
  obtain ⟨g, hle, hlead, hfar, hwide⟩ : ∃ g, g ≤ e ∧ g ≤ x.leadingExponent ∧ x.leadingExponent - 16 < g ∧
      (2 : ℚ) ^ x.exponent < (10 : ℚ) ^ g := by
    rcases le_total e x.leadingExponent with hle | hle
    · exact ⟨e, le_rfl, hle, leadingExponent_lt hx hfin hk h, two_zpow_lt_ten_zpow hx hsig hk h⟩
    · exact ⟨x.leadingExponent, hle, le_rfl, by omega, two_zpow_lt_leadingExponent hx hfin hsig⟩
  obtain ⟨m, hm⟩ := exists_finer hle k
  have hcovers := covers_shortest hx hfin
  rw [hm] at h ⊢
  have hfirst : g ≤ x.shortest.exponent := firstGrid_ge hx h hlead hfar
  obtain ⟨n, hn⟩ := exists_finer hfirst x.shortest.digits
  rw [Decimal.value, hn] at hcovers ⊢
  rw [eq_of_covers_grid hx hcovers h hwide]

/-! ## The digits of a shortest decimal -/

/-- The search ends next to the double, on one of the grids that it tries or the one after them. -/
theorem firstGrid_neighbour (x : Binary64) (tries : ℕ) (e : ℤ) : e - tries ≤ (x.firstGrid tries e).exponent ∧
    ((x.firstGrid tries e).digits = (x.gridNeighbours (x.firstGrid tries e).exponent).1 ∨
      (x.firstGrid tries e).digits = (x.gridNeighbours (x.firstGrid tries e).exponent).2) := by
  induction tries generalizing e with
  | zero =>
    rw [firstGrid]
    exact ⟨by dsimp only; omega, .inl rfl⟩
  | succ tries ih =>
    rw [firstGrid]
    cases hgrid : x.onGrid e with
    | some k =>
      refine ⟨by dsimp only; omega, ?_⟩
      rw [onGrid] at hgrid
      split at hgrid
      · exact .inl (Option.some.inj hgrid).symm
      · split at hgrid
        · exact .inr (Option.some.inj hgrid).symm
        · cases hgrid
    | none =>
      obtain ⟨hle, hnext⟩ := ih (e - 1)
      push_cast
      exact ⟨by omega, hnext⟩

/-- **The shortest decimal** has at most seventeen digits. -/
theorem shortest_digits_le (hx : 0 < x.place) (hfin : x.isFinite = true) : x.shortest.digits ≤ 10 ^ 17 := by
  obtain ⟨hlow, hnext⟩ := x.firstGrid_neighbour 16 x.leadingExponent
  rw [← shortest] at hlow hnext
  obtain ⟨k, hk, -, hpoints⟩ := x.gridNeighbours_eq x.shortest.exponent
  have hdigits : x.shortest.digits ≤ k + 1 := by
    rcases hpoints with hp | hp <;> rw [hp] at hnext <;> omega
  have hbound : (k : ℚ) < (10 ^ 17 : ℕ) := by
    have hT := ten_zpow_pos x.shortest.exponent
    refine lt_of_mul_lt_mul_right (a := (10 : ℚ) ^ x.shortest.exponent) ?_ hT.le
    calc (k : ℚ) * (10 : ℚ) ^ x.shortest.exponent ≤ x.value := hk
      _ < (10 : ℚ) ^ (x.leadingExponent + 1) := (leadingExponent_spec hx hfin).2
      _ ≤ (10 : ℚ) ^ (17 + x.shortest.exponent) := zpow_le_zpow_right₀ (by norm_num) (by push_cast at hlow; omega)
      _ = (10 ^ 17 : ℕ) * (10 : ℚ) ^ x.shortest.exponent := by
          rw [zpow_add₀ (by norm_num)]
          norm_num
  have hk' : k < 10 ^ 17 := by exact_mod_cast hbound
  omega

/-! ## Numerals -/

/-- The number that the text of a double denotes. -/
def printed (x : Binary64) : ℚ :=
  if x.negative then -x.shown else x.shown

/-- The text of a finite double is a numeral for the number that is printed, and it is read as the double. -/
theorem value_chars (hfin : x.isFinite = true) :
    ∃ n, Numeral.parse? x.chars = some n ∧ n.value = x.printed ∧ ofNumeral n = x := by
  obtain ⟨n, hparse, hneg, hshown⟩ := numeral_chars hfin
  refine ⟨n, hparse, ?_, ofNumeral_of_shown hfin hneg hshown⟩
  rw [Numeral.value, printed, hneg, hshown]

end Binary64

namespace Numeral

variable {n : Numeral}

/-- A numeral denotes a number of at most some significant digits. -/
def HasDigits (n : Numeral) (count : ℕ) : Prop :=
  ∃ (k : ℕ) (e : ℤ), k < 10 ^ count ∧ n.magnitude = k * (10 : ℚ) ^ e

/-- A numeral lies in the range where doubles have their full precision, or is zero. -/
def FullPrecision (n : Numeral) : Prop :=
  n.magnitude = 0 ∨ (2 : ℚ) ^ (-1022 : ℤ) ≤ n.magnitude

/-- **A numeral of at most fifteen digits** is printed as the number that it denotes. -/
theorem printed_ofNumeral (hfin : (Binary64.ofNumeral n).isFinite = true) (hdigits : n.HasDigits 15)
    (hrange : n.FullPrecision) : (Binary64.ofNumeral n).printed = n.value := by
  have hshown : (Binary64.ofNumeral n).shown = n.magnitude := by
    obtain ⟨k, e, hk, hmagnitude⟩ := hdigits
    rw [Binary64.ofNumeral_eq] at hfin ⊢
    rw [Binary64.shown]
    dsimp only
    rcases hrange with hzero | hnormal
    · rw [hzero, Binary64.nearestPlace_zero, if_pos rfl]
    · have hplace := Binary64.nearestPlace_pos hnormal
      have hpos : 0 < n.magnitude := (Binary64.two_zpow_pos _).trans_le hnormal
      have hcovers := Binary64.covers_of_nearestPlace hpos (x := ⟨n.negative, _⟩) hplace hfin rfl
      rw [if_neg hplace.ne', hmagnitude]
      rw [hmagnitude] at hplace hfin hcovers hnormal
      exact Binary64.shortest_eq hplace hfin hk hcovers hnormal
  rw [Binary64.printed, Numeral.value, hshown, Binary64.ofNumeral_eq]

/-- **A text of a double** never denotes a number of more than seventeen digits. -/
theorem hasDigits_of_printed (hfin : (Binary64.ofNumeral n).isFinite = true)
    (h : (Binary64.ofNumeral n).printed = n.value) : n.HasDigits 17 := by
  have hshown : n.magnitude = (Binary64.ofNumeral n).shown := by
    rw [Binary64.printed, value, show (Binary64.ofNumeral n).negative = n.negative by rw [Binary64.ofNumeral_eq]] at h
    split at h
    · exact (neg_inj.1 h).symm
    · exact h.symm
  rw [Binary64.shown] at hshown
  split at hshown
  · exact ⟨0, 0, by norm_num, by rw [hshown, Nat.cast_zero, zero_mul]⟩
  · rename_i hplace
    rcases (Binary64.shortest_digits_le (Nat.pos_of_ne_zero hplace) hfin).lt_or_eq with hlt | heq
    · exact ⟨_, _, hlt, hshown⟩
    · -- the least number of eighteen digits has one that counts
      refine ⟨1, 17 + (Binary64.ofNumeral n).shortest.exponent, by norm_num, ?_⟩
      rw [hshown, Decimal.value, heq, zpow_add₀ (by norm_num)]
      norm_num

/-! ## Whole numbers -/

/-- What is read as digits. -/
theorem of_digits? {cs : List Char} {d : ℕ} (h : digits? cs = some d) :
    cs.isEmpty = false ∧ cs.all Char.isDigit = true ∧ ofDigits cs = d := by
  rw [digits?] at h
  split at h
  · cases h
  · rename_i hnot
    rw [Bool.or_eq_true, not_or, Bool.not_eq_true, Bool.not_eq_true, Bool.not_eq_false'] at hnot
    exact ⟨hnot.1, hnot.2, Option.some.inj h⟩

/-- A sign and digits are read as a numeral without an exponent. -/
theorem parse?_of_digits? {cs : List Char} {d : ℕ} (h : digits? (takeSign cs).2 = some d) :
    parse? cs = some ⟨(takeSign cs).1, d, 0⟩ := by
  obtain ⟨hne, hall, hd⟩ := of_digits? h
  have hwhole : (takeSign cs).2.takeWhile Char.isDigit = (takeSign cs).2 :=
    List.takeWhile_eq_self_iff.2 (List.all_eq_true.1 hall)
  have hrest : (takeSign cs).2.dropWhile Char.isDigit = [] := List.dropWhile_eq_nil_iff.2 (List.all_eq_true.1 hall)
  simp only [parse?, hwhole, hrest, hne, fraction, Bool.false_and, List.append_nil, hd]
  rfl

/-- **A whole number** that is read is one that a document can hold, and its text is a numeral for it. -/
theorem of_integer? {cs : List Char} {i : ℤ} (h : integer? cs = some i) :
    JsonNumber.fits i = true ∧ ∃ n, parse? cs = some n ∧ n.value = i := by
  rw [integer?] at h
  split at h
  · cases h
  · rename_i d hd
    rw [parse?_of_digits? hd]
    have hmagnitude : magnitude ⟨(takeSign cs).1, d, 0⟩ = d := by rw [magnitude, zpow_zero, mul_one]
    have hbound : 0 < natBound := by decide
    rw [JsonNumber.fits, Bool.and_eq_true, decide_eq_true_eq, decide_eq_true_eq]
    split at h
    · rename_i hneg
      split at h
      · cases h
        refine ⟨by omega, _, rfl, ?_⟩
        rw [value, hmagnitude, if_pos hneg]
        push_cast
        rfl
      · cases h
    · rename_i hpos
      split at h
      · cases h
        refine ⟨by omega, _, rfl, ?_⟩
        rw [value, hmagnitude, if_neg hpos]
        push_cast
        rfl
      · cases h

/-- A whole number of 64 bits is read as a finite double. -/
theorem isFinite_of_fits {i : ℤ} (h : JsonNumber.fits i = true) (hn : n.value = i) :
    (Binary64.ofNumeral n).isFinite = true := by
  rw [JsonNumber.fits, Bool.and_eq_true, decide_eq_true_eq, decide_eq_true_eq] at h
  have hlow : -(2 : ℚ) ^ (63 : ℕ) ≤ (i : ℚ) := by exact_mod_cast h.1
  have hhigh : (i : ℚ) < (2 : ℚ) ^ (64 : ℕ) := by exact_mod_cast h.2
  have hmagnitude : n.magnitude ≤ Binary64.value ⟨false, 1087 * Binary64.binade⟩ := by
    have hvalue : Binary64.value ⟨false, 1087 * Binary64.binade⟩ = (2 : ℚ) ^ (64 : ℕ) := by
      rw [Binary64.value, show Binary64.significand ⟨false, 1087 * Binary64.binade⟩ = Binary64.binade from by decide,
        show Binary64.exponent ⟨false, 1087 * Binary64.binade⟩ = 12 from by decide, Binary64.binade]
      norm_num
    rw [hvalue]
    rw [value] at hn
    split at hn <;> linarith
  have hplace := Binary64.nearestPlace_mono (Binary64.magnitude_nonneg n) hmagnitude
  rw [Binary64.nearestPlace_of_covers (by decide) rfl (Binary64.covers_value (by decide))] at hplace
  rw [Binary64.ofNumeral_eq]
  exact decide_eq_true (hplace.trans_lt (by decide))

end Numeral

end RecordStore
