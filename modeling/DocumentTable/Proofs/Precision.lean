import DocumentTable.Proofs.Shortest

/-!
# What rounding keeps

Every number below the largest finite one is rounded to some binary64 number. A decimal with at most
fifteen digits comes back from there: the shortest decimal of the number that it rounds to is the
decimal itself.

## Main results

* `Binary64.exists_covers`: every number that is not too large rounds to a binary64 number
* `Binary64.Covers.abs_sub_le`: rounding moves a number by half a unit of the last bit at most
* `Binary64.Covers.abs_sub_le_of_covers`: numbers that round to the same one are close to each other
* `Binary64.shortest_value_of_covers`: decimals with few digits come back

## Design notes

Fifteen digits are few enough because the points of a grid with fifteen digits are farther from each
other than the ends of an interval of numbers that round to the same one. So at most one such point
lies in the interval, and the first grid that has a point there has this one.
-/

namespace DocumentTable

/-- Every number has a nearest whole number, or two, of which one is even. -/
theorem exists_roundsTo {t : ℚ} (h : 0 ≤ t) : ∃ m, RoundsTo t m := by
  have below := Nat.floor_le h
  have above := Nat.lt_floor_add_one t
  set q := ⌊t⌋₊
  rcases lt_trichotomy (t - q) (1 / 2) with near | half | far
  · exact ⟨q, .of_lt (by linarith) (by linarith)⟩
  · -- halfway between two numbers the even one counts
    rcases Nat.mod_two_eq_zero_or_one q with even | odd
    · refine ⟨q, ?_⟩
      rw [RoundsTo, Between, if_pos even]
      constructor <;> linarith
    · refine ⟨q + 1, ?_⟩
      rw [RoundsTo, Between, if_pos (by omega)]
      push_cast
      constructor <;> linarith
  · refine ⟨q + 1, .of_lt ?_ ?_⟩
    · push_cast
      linarith
    · push_cast
      linarith

namespace Binary64

variable {x : Binary64} {v : ℚ}

/-! ### Every number is rounded -/

theorem zero_covers (negative : Bool) : (zero negative).Covers 0 := by
  have covers := (zero negative).covers_absolute
  rwa [absolute, zero, Nat.cast_zero, zero_mul] at covers

/-- The interval of a power of two, in units of the last bit. -/
theorem covers_of_power (power : x.significand = 0x10000000000000) (normal : x.exponent ≠ -1074)
    (low : 2 ^ 52 - 1 / 4 ≤ v / 2 ^ x.exponent) (high : v / 2 ^ x.exponent ≤ 2 ^ 52 + 1 / 2) :
    x.Covers v := by
  have bound : x.quarterBounds.1 = 4 * 0x10000000000000 - 1 := by
    rw [quarterBounds, power]
    exact if_pos ⟨rfl, normal⟩
  rw [covers_iff, quarterBounds_high, bound, power, Between, if_pos rfl]
  norm_num at low high ⊢
  constructor <;> linarith

/-- What rounds to the significand of a number in units of its last bit rounds to the number, unless
it lies below a power of two. -/
theorem covers_of_roundsTo (rounds : RoundsTo (v / 2 ^ x.exponent) x.significand) (nonneg : 0 ≤ v)
    (normal : x.exponent ≠ -1074 → 2 ^ 52 ≤ v / 2 ^ x.exponent) : x.Covers v := by
  have unit : (0 : ℚ) < 2 ^ x.exponent := by positivity
  -- zero and powers of two have other bounds below than half a unit
  by_cases none : x.significand = 0
  · rw [covers_iff, quarterBounds_high]
    have low : x.quarterBounds.1 = 0 := by
      rw [quarterBounds, none]
      rfl
    have high := rounds.le.2
    rw [none] at high
    rw [low, none, Between, if_pos rfl]
    refine ⟨?_, ?_⟩
    · rw [Nat.cast_zero, zero_div]
      exact div_nonneg nonneg unit.le
    · linarith
  · by_cases power : x.significand = 0x10000000000000 ∧ x.exponent ≠ -1074
    · have high := rounds.le.2
      have large := normal power.2
      rw [power.1] at high
      refine covers_of_power power.1 power.2 (by linarith) ?_
      norm_num at high ⊢
      linarith
    · rw [covers_iff, quarterBounds_high]
      have low : x.quarterBounds.1 + 2 = 4 * x.significand := by
        rw [quarterBounds]
        dsimp only
        rw [if_neg power]
        omega
      have cast : (x.quarterBounds.1 : ℚ) + 2 = 4 * x.significand := by
        exact_mod_cast low
      exact rounds.mono (by linarith) (by linarith)

/-- The unit in which a number is rounded: its significand has 53 bits, or fewer for the least
numbers. -/
theorem exists_unit (positive : 0 < v) (small : v < 2 ^ (1023 : Int)) :
    ∃ e : Int, -1074 ≤ e ∧ e ≤ 970 ∧ v / 2 ^ e < 2 ^ 53 ∧ (e ≠ -1074 → 2 ^ 52 ≤ v / 2 ^ e) := by
  have two : 1 < 2 := by decide
  have log : Int.log 2 v < 1023 := (Int.lt_zpow_iff_log_lt two positive).1 small
  have lower := Int.zpow_log_le_self two positive
  have upper := Int.lt_zpow_succ_log_self two v
  rw [Nat.cast_ofNat] at lower upper
  -- no unit is below the least one, so that there the significand may have fewer bits
  obtain ⟨e, he⟩ : ∃ e, e = max (Int.log 2 v - 52) (-1074) := ⟨_, rfl⟩
  have unit : (0 : ℚ) < 2 ^ e := by positivity
  refine ⟨e, by omega, by omega, ?_, fun normal => ?_⟩
  · rw [div_lt_iff₀ unit, ← zpow_natCast, ← zpow_add₀ (by norm_num)]
    refine upper.trans_le (zpow_le_zpow_right₀ (by norm_num) ?_)
    push_cast
    omega
  · rw [le_div_iff₀ unit, ← zpow_natCast, ← zpow_add₀ (by norm_num)]
    refine le_trans (zpow_le_zpow_right₀ (by norm_num) ?_) lower
    push_cast
    omega

/-- Every number that is not too large rounds to a binary64 number, with the sign that is asked for.
-/
theorem exists_covers (negative : Bool) (nonneg : 0 ≤ v) (small : v < 2 ^ (1023 : Int)) :
    ∃ x : Binary64, x.negative = negative ∧ x.Covers v := by
  rcases nonneg.eq_or_lt with rfl | positive
  · exact ⟨zero negative, rfl, zero_covers negative⟩
  -- the unit is the last bit that a number of this size has, so that rounding is to a whole number
  -- of units
  obtain ⟨e, least, greatest, high, large⟩ := exists_unit positive small
  obtain ⟨m, rounds⟩ := exists_roundsTo (t := v / 2 ^ e) (by positivity)
  have bits : m ≤ 2 ^ 53 := by
    have near := rounds.le.1
    have : (m : ℚ) < 2 ^ 53 + 1 := by linarith
    exact Nat.lt_succ_iff.1 (by exact_mod_cast this)
  rcases bits.eq_or_lt with carry | fits
  · -- rounding up has given a bit more, so that the number is a power of two
    have canonical : 0x10000000000000 < 0x20000000000000 ∧ -1074 ≤ e + 1 ∧ e + 1 ≤ 971 ∧
        (0x10000000000000 ≤ 0x10000000000000 ∨ e + 1 = -1074) := by
      omega
    have near := rounds.le.1
    have halved : v / 2 ^ (e + 1) = v / 2 ^ e / 2 := by
      rw [zpow_add_one₀ (by norm_num)]
      field_simp
    rw [carry] at near
    refine ⟨⟨negative, 0x10000000000000, e + 1, canonical⟩, rfl, covers_of_power rfl ?_ ?_ ?_⟩
    · show e + 1 ≠ -1074
      omega
    · rw [halved]
      norm_num at near ⊢
      linarith
    · rw [halved]
      norm_num at high ⊢
      linarith
  · have normal (h : e ≠ -1074) : 2 ^ 52 ≤ m := by
      have near := rounds.le.2
      have some := large h
      have : (2 : ℚ) ^ 52 < m + 1 := by linarith
      exact Nat.lt_succ_iff.1 (by exact_mod_cast this)
    have canonical : m < 0x20000000000000 ∧ -1074 ≤ e ∧ e ≤ 971 ∧
        (0x10000000000000 ≤ m ∨ e = -1074) := by
      refine ⟨fits, by omega, by omega, ?_⟩
      by_cases h : e = -1074
      · exact .inr h
      · exact .inl (normal h)
    exact ⟨⟨negative, m, e, canonical⟩, rfl, covers_of_roundsTo rounds positive.le large⟩

/-! ### Rounding moves a number by little -/

/-- Rounding moves a number by half a unit of the last bit at most, up or down. -/
theorem Covers.abs_sub_le (h : x.Covers v) : |v - x.absolute| ≤ 2 ^ x.exponent / 2 := by
  have unit : (0 : ℚ) < 2 ^ x.exponent := by positivity
  obtain ⟨low, high⟩ := h.roundsTo.le
  rw [le_div_iff₀ unit] at low
  rw [div_le_iff₀ unit] at high
  rw [absolute, abs_le]
  constructor <;> linarith

/-- What is not among the least numbers has all bits of the significand, and so the precision of
them. -/
theorem Covers.normal (h : x.Covers v) (large : 10 ^ (-130 : Int) ≤ v) :
    2 ^ 52 ≤ x.significand := by
  refine x.canonical.2.2.2.resolve_right fun least => ?_
  have high := (abs_le.1 h.abs_sub_le).2
  have bits : (x.significand : ℚ) < 2 ^ 53 := by
    exact_mod_cast x.canonical.1
  have unit : (0 : ℚ) < 2 ^ (-1074 : Int) := by positivity
  have power : (2 : ℚ) ^ 54 * 2 ^ (-1074 : Int) ≤ 10 ^ (-130 : Int) := by
    rw [← zpow_natCast, ← zpow_add₀ (by norm_num)]
    calc (2 : ℚ) ^ (-1020 : Int) ≤ 2 ^ (-520 : Int) :=
          zpow_le_zpow_right₀ (by norm_num) (by decide)
      _ = ((2 ^ 4) ^ 130)⁻¹ := by
          rw [← pow_mul, ← zpow_natCast, ← zpow_neg]
          rfl
      _ ≤ (10 ^ 130)⁻¹ := by
          refine inv_anti₀ (by positivity) (pow_le_pow_left₀ ?_ ?_ 130) <;> norm_num
      _ = 10 ^ (-130 : Int) := by
          rw [← zpow_natCast, ← zpow_neg]
          rfl
  rw [absolute, least] at high
  have below : (x.significand : ℚ) * 2 ^ (-1074 : Int) < 2 ^ 53 * 2 ^ (-1074 : Int) :=
    mul_lt_mul_of_pos_right bits unit
  linarith

/-- The unit of the last bit is small beside a number with all bits of the significand. -/
theorem unit_le (normal : 2 ^ 52 ≤ x.significand) : (2 : ℚ) ^ x.exponent * 2 ^ 52 ≤ x.absolute := by
  have bits : (2 : ℚ) ^ 52 ≤ x.significand := by
    exact_mod_cast normal
  rw [absolute, mul_comm]
  exact mul_le_mul_of_nonneg_right bits (by positivity)

/-- Numbers that round to the same one differ in the sixteenth digit at most. The least numbers are
excluded, since they have fewer bits. -/
theorem Covers.abs_sub_le_of_covers {w : ℚ} (h : x.Covers v) (h' : x.Covers w)
    (normal : 2 ^ 52 ≤ x.significand) : |w - v| ≤ v / 10 ^ 15 := by
  have unit := unit_le normal
  have near := abs_le.1 h.abs_sub_le
  have near' := abs_le.1 h'.abs_sub_le
  rw [abs_le]
  norm_num at unit ⊢
  constructor <;> linarith

/-! ### Decimals with few digits -/

/-- Of two points of a grid, one that is less than a cell above the other is not above it. -/
theorem le_of_grid_lt {grid : Int} {k l : Nat}
    (before : (k : ℚ) * 10 ^ grid < (l + 1) * 10 ^ grid) : k ≤ l := by
  have cell : (0 : ℚ) < 10 ^ grid := by positivity
  rw [mul_lt_mul_iff_left₀ cell] at before
  exact Nat.lt_succ_iff.1 (by exact_mod_cast before)

/-- Two points of a grid that round to the same number are one, when the grid is coarse. -/
theorem eq_of_covers_grid {grid : Int} (coarse : (2 : ℚ) ^ x.exponent < 10 ^ grid) {k l : Nat}
    (hk : x.Covers (k * 10 ^ grid)) (hl : x.Covers (l * 10 ^ grid)) : k = l := by
  have nearK := abs_le.1 hk.abs_sub_le
  have nearL := abs_le.1 hl.abs_sub_le
  exact le_antisymm (le_of_grid_lt (by linarith)) (le_of_grid_lt (by linarith))

/-- A grid that has a point that rounds to the number finds it, when the grid is coarse. -/
theorem onGrid?_ne_none_of_covers (tie : TieRule) {grid : Int}
    (coarse : (2 : ℚ) ^ x.exponent < 10 ^ grid) {k : Nat} (h : x.Covers (k * 10 ^ grid)) :
    x.onGrid? tie grid ≠ none := by
  have near := abs_le.1 h.abs_sub_le
  obtain ⟨le, lt⟩ := x.gridBelow_le grid
  have above : x.gridBelow grid ≤ k := le_of_grid_lt (by linarith)
  have below : k ≤ x.gridBelow grid + 1 := le_of_grid_lt (by push_cast; linarith)
  refine onGrid?_ne_none_of_rounds tie ?_
  rw [rounds_iff, rounds_iff]
  obtain rfl | rfl : k = x.gridBelow grid ∨ k = x.gridBelow grid + 1 := by omega
  · exact .inl h
  · exact .inr h

/-- The grid with fifteen digits is coarse. -/
theorem unit_lt_grid (normal : 2 ^ 52 ≤ x.significand) :
    (2 : ℚ) ^ x.exponent < 10 ^ (x.pointPosition - 15) := by
  have some : x.significand ≠ 0 := by
    omega
  have unit := unit_le normal
  have point := Int.lt_zpow_succ_log_self (b := 10) (by decide) x.absolute
  rw [← pointPosition_eq_log some, Nat.cast_ofNat] at point
  rw [zpow_sub₀ (by norm_num), lt_div_iff₀ (by positivity)]
  refine lt_of_le_of_lt ?_ point
  have positive : (0 : ℚ) < 2 ^ x.exponent := by positivity
  norm_num at unit ⊢
  linarith

/-- A decimal with at most fifteen digits is a point of the grid with fifteen digits of the number
it rounds to. -/
theorem exists_grid_of_covers {d : Decimal} (few : d.coefficient < 10 ^ 15)
    (normal : 2 ^ 52 ≤ x.significand) (h : x.Covers d.value) :
    ∃ k : Nat, d.value = k * 10 ^ (x.pointPosition - 15) := by
  have some : x.significand ≠ 0 := by
    omega
  suffices fine : x.pointPosition - 15 ≤ d.exponent by
    refine ⟨d.coefficient * 10 ^ (d.exponent - (x.pointPosition - 15)).toNat, ?_⟩
    have exponent : ((d.exponent - (x.pointPosition - 15)).toNat : Int) +
        (x.pointPosition - 15) = d.exponent := by
      omega
    push_cast
    rw [mul_assoc, ← zpow_natCast, ← zpow_add₀ (by norm_num), exponent]
    rfl
  -- otherwise the number would have a digit more than the decimal, and lie too far above it
  by_contra coarse
  have point := Int.zpow_log_le_self (b := 10) (by decide) (absolute_pos some)
  have unit := unit_le normal
  have near := (abs_le.1 h.abs_sub_le).1
  have cell : (0 : ℚ) < 10 ^ d.exponent := by positivity
  have digits : (d.coefficient : ℚ) + 1 ≤ 10 ^ 15 := by
    exact_mod_cast few
  have value : d.value + 10 ^ d.exponent ≤ 10 ^ 15 * 10 ^ d.exponent := by
    rw [Decimal.value, ← add_one_mul]
    exact mul_le_mul_of_nonneg_right digits cell.le
  have large : (10 : ℚ) ^ 15 * 10 ^ d.exponent ≤ x.absolute := by
    refine le_trans ?_ point
    rw [Nat.cast_ofNat, ← zpow_natCast, ← zpow_add₀ (by norm_num)]
    refine zpow_le_zpow_right₀ (by norm_num) ?_
    have log := pointPosition_eq_log some
    push_cast
    omega
  have positive : (0 : ℚ) < 2 ^ x.exponent := by positivity
  norm_num at unit value large
  linarith

/-- Decimals with few digits come back: the shortest decimal of the number that one rounds to stands
for the same number. Fifteen digits are few enough, as no two such decimals round to one number. -/
theorem shortest_value_of_covers (tie : TieRule) {d : Decimal} (few : d.coefficient < 10 ^ 15)
    (normal : 2 ^ 52 ≤ x.significand) (h : x.Covers d.value) :
    (x.shortest tie).value = d.value := by
  have some : x.significand ≠ 0 := by
    omega
  obtain ⟨k, grid⟩ := exists_grid_of_covers few normal h
  have coarse := unit_lt_grid normal
  rw [grid] at h
  suffices first : ∀ attempts digits, attempts + digits = 18 → digits ≤ 15 →
      (x.firstGrid tie x.pointPosition attempts digits).value = d.value by
    rw [shortest, if_neg some, Decimal.value_strip]
    exact first 17 1 rfl (by decide)
  -- the attempts are enough to get to fifteen digits
  intro attempts
  induction attempts with
  | zero =>
      intro digits sum small
      omega
  | succ attempts ih =>
      intro digits sum small
      rw [firstGrid]
      split
      · next d' found =>
          -- a point of a coarser grid is one of the grid with fifteen digits
          have covers := onGrid?_covers found
          have value : d'.value = (d'.coefficient * 10 ^ (15 - digits) : Nat) *
              10 ^ (x.pointPosition - 15) := by
            have exponent : x.pointPosition - digits =
                ((15 - digits : Nat) : Int) + (x.pointPosition - 15) := by
              omega
            rw [Decimal.value, onGrid?_exponent found, exponent, zpow_add₀ (by norm_num),
              zpow_natCast]
            push_cast
            ring
          rw [value] at covers
          rw [grid, value, eq_of_covers_grid coarse covers h]
      · next none =>
          refine ih (digits + 1) (by omega) ?_
          by_contra last
          obtain rfl : digits = 15 := by
            omega
          exact onGrid?_ne_none_of_covers tie coarse h none

end Binary64

end DocumentTable
