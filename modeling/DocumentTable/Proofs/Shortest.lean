import DocumentTable.Proofs.Rounding
import Mathlib.Algebra.Order.Floor.Semifield

/-!
# The shortest decimal of a number

The text of a binary64 number is that of a decimal which rounds to the number. So the text reads
back as the number, in every layout.

## Main results

* `Binary64.pointPosition_eq_log`: the point is found where the number has it
* `Binary64.onGrid?_covers`: a decimal that a grid gives rounds to the number
* `Binary64.firstGrid_covers`: one of seventeen grids gives one
* `Binary64.Reading.ofText?_text`: the text of a number reads back as the number

## Design notes

A grid with seventeen digits is fine enough: its cells are shorter than the interval of the numbers
that round to `x`, also for a power of two, where the interval is shorter below than above. That no
grid before it is fine enough plays no part here.
-/

namespace DocumentTable.Binary64

variable {x : Binary64}

theorem absolute_pos (h : x.significand ≠ 0) : 0 < x.absolute := by
  have : (0 : ℚ) < x.significand := Nat.cast_pos.2 (Nat.pos_of_ne_zero h)
  rw [absolute]
  positivity

/-- A number covers itself, so that there is always something in its interval. -/
theorem covers_absolute (x : Binary64) : x.Covers x.absolute := by
  have unit : (2 : ℚ) ^ x.exponent ≠ 0 := by positivity
  rw [covers_iff, absolute, mul_div_cancel_right₀ _ unit, quarterBounds_high]
  by_cases h : x.significand = 0
  · have low : x.quarterBounds.1 = 0 := by
      rw [quarterBounds, h]
      rfl
    rw [low, h, Between, if_pos rfl]
    norm_num
  · refine .of_lt ?_ (by linarith)
    rcases quarterBounds_low_le h with low | ⟨-, low⟩ <;> linarith

/-! ### The position of the point -/

theorem magnitude_div (x : Binary64) : (x.magnitude.1 : ℚ) / x.magnitude.2 = x.absolute := by
  have fraction := mul_pow_div_pow 2 x.significand 1 (by decide) x.exponent
  rwa [Nat.one_mul, Nat.cast_one, div_one, Nat.cast_ofNat] at fraction

/-- The whole part of a number that is moved by some places. -/
def moved (x : Binary64) (places : Nat) : Nat :=
  x.magnitude.1 * Nat.pow 10 places / x.magnitude.2

/-- Moving the point of a number and cutting off what is behind it takes the whole part. -/
theorem moved_eq_floor (x : Binary64) (places : Nat) :
    x.moved places = ⌊x.absolute * (10 : Nat) ^ (places : Int)⌋₊ := by
  rw [moved, ← Nat.floor_div_eq_div (K := ℚ), ← magnitude_div, zpow_natCast, Nat.pow_eq,
    Nat.cast_mul, Nat.cast_pow, div_mul_eq_mul_div]

/-- Moved by enough places, a number has those places more digits before the point. This is how the
position of the point is found without logarithms. -/
theorem length_digitsOf_moved {places : Nat} (h : x.significand ≠ 0)
    (enough : -(places : Int) ≤ Int.log 10 x.absolute) :
    ((digitsOf (x.moved places)).length : Int) = Int.log 10 x.absolute + 1 + places := by
  have ten : 1 < 10 := by decide
  have positive := absolute_pos h
  rw [moved_eq_floor]
  set v := x.absolute * (10 : Nat) ^ (places : Int)
  have log : Int.log 10 v = Int.log 10 x.absolute + places := log_mul_zpow ten positive places
  have large : 1 ≤ v := by
    have one := (Int.zpow_le_iff_le_log ten (x := 0) (r := v) (by positivity)).2 (by omega)
    rwa [zpow_zero] at one
  rw [length_digitsOf (Nat.floor_pos.2 large), Nat.cast_add, ← Int.log_of_one_le_right 10 large,
    log]
  omega

/-- The point is found where the number has it. Zero is excluded, since it has no leading digit. -/
theorem pointPosition_eq_log (h : x.significand ≠ 0) :
    x.pointPosition = Int.log 10 x.absolute + 1 := by
  have least := x.covers_absolute.le_log_ten (absolute_pos h) h
  rw [pointPosition]
  -- a variable keeps the power of ten from being computed
  generalize hplaces : 324 = places
  show ((digitsOf (x.moved places)).length : Int) - 324 = _
  rw [length_digitsOf_moved h (by omega)]
  omega

/-! ### Grids -/

/-- The length of a cell of a grid, in units that make it and `gridQuarter` whole. -/
def gridCell (x : Binary64) (grid : Int) : Nat :=
  Nat.pow 10 grid.toNat * Nat.pow 2 (-(x.exponent - 2)).toNat

/-- A quarter of the unit of the last bit, in the same units. -/
def gridQuarter (x : Binary64) (grid : Int) : Nat :=
  Nat.pow 2 (x.exponent - 2).toNat * Nat.pow 10 (-grid).toNat

/-- What those units have in one. -/
def gridScale (x : Binary64) (grid : Int) : ℚ :=
  10 ^ (-grid).toNat * 2 ^ (-(x.exponent - 2)).toNat

/-- The last point of a grid that is not above the number. -/
def gridBelow (x : Binary64) (grid : Int) : Nat :=
  4 * x.significand * x.gridQuarter grid / x.gridCell grid

/-- Whether a point of a grid rounds to the number. -/
def rounds (x : Binary64) (grid : Int) (k : Nat) : Bool :=
  if x.significand % 2 = 0 then
    x.quarterBounds.1 * x.gridQuarter grid ≤ k * x.gridCell grid &&
      k * x.gridCell grid ≤ x.quarterBounds.2 * x.gridQuarter grid
  else
    x.quarterBounds.1 * x.gridQuarter grid < k * x.gridCell grid &&
      k * x.gridCell grid < x.quarterBounds.2 * x.gridQuarter grid

theorem gridScale_pos (x : Binary64) (grid : Int) : 0 < x.gridScale grid := by
  rw [gridScale]
  positivity

theorem gridCell_mul (x : Binary64) (grid : Int) (k : Nat) :
    ((k * x.gridCell grid : Nat) : ℚ) = k * 10 ^ grid * x.gridScale grid := by
  rw [gridCell, gridScale, Nat.pow_eq, Nat.pow_eq, zpow_eq_div_toNat (by norm_num) grid]
  push_cast
  field_simp

theorem gridQuarter_mul (x : Binary64) (grid : Int) (k : Nat) :
    ((k * x.gridQuarter grid : Nat) : ℚ) = k * 2 ^ (x.exponent - 2) * x.gridScale grid := by
  rw [gridQuarter, gridScale, Nat.pow_eq, Nat.pow_eq,
    zpow_eq_div_toNat (by norm_num) (x.exponent - 2)]
  push_cast
  field_simp

/-- Whether a point of a grid rounds to the number is decided with natural numbers. -/
theorem rounds_iff {grid : Int} {k : Nat} :
    x.rounds grid k = true ↔ x.Covers (k * 10 ^ grid) := by
  have scale := x.gridScale_pos grid
  rw [rounds, Covers, Between]
  simp only [apply_ite (· = true), Bool.and_eq_true, decide_eq_true_eq, ← Nat.cast_le (α := ℚ),
    ← Nat.cast_lt (α := ℚ), gridCell_mul, gridQuarter_mul, mul_le_mul_iff_left₀ scale,
    mul_lt_mul_iff_left₀ scale]

/-- The point that is nearer to the number. -/
def gridNearer (tie : TieRule) (x : Binary64) (grid : Int) : Nat :=
  let twice := 2 * (4 * x.significand * x.gridQuarter grid % x.gridCell grid)
  if twice < x.gridCell grid then x.gridBelow grid
  else if x.gridCell grid < twice then x.gridBelow grid + 1
  else tie.resolve (x.gridBelow grid)

theorem gridNearer_eq (tie : TieRule) (x : Binary64) (grid : Int) :
    x.gridNearer tie grid = x.gridBelow grid ∨ x.gridNearer tie grid = x.gridBelow grid + 1 := by
  rw [gridNearer]
  split
  · exact .inl rfl
  · split
    · exact .inr rfl
    · cases tie with
      | toEven =>
          rw [TieRule.resolve]
          omega
      | upward => exact .inr rfl

/-- A grid gives one of the two points around the number, if one of them rounds to it. When both do,
the nearer one is given. -/
theorem onGrid?_eq (tie : TieRule) (x : Binary64) (grid : Int) :
    x.onGrid? tie grid =
      if x.rounds grid (x.gridBelow grid) && x.rounds grid (x.gridBelow grid + 1) then
        some ⟨x.gridNearer tie grid, grid⟩
      else if x.rounds grid (x.gridBelow grid) then some ⟨x.gridBelow grid, grid⟩
      else if x.rounds grid (x.gridBelow grid + 1) then some ⟨x.gridBelow grid + 1, grid⟩
      else none :=
  rfl

/-- A decimal that a grid gives rounds to the number, since no other is given. -/
theorem onGrid?_covers {tie : TieRule} {grid : Int} {d : Decimal}
    (h : x.onGrid? tie grid = some d) : x.Covers d.value := by
  rw [onGrid?_eq] at h
  split at h
  · next both =>
      obtain ⟨below, above⟩ := Bool.and_eq_true_iff.1 both
      cases h
      refine rounds_iff.1 ?_
      rcases x.gridNearer_eq tie grid with near | near
      · exact near ▸ below
      · exact near ▸ above
  · split at h
    · next below =>
        cases h
        exact rounds_iff.1 below
    · split at h
      · next above =>
          cases h
          exact rounds_iff.1 above
      · cases h

/-- The two points are on either side of the number, one cell of the grid apart. -/
theorem gridBelow_le (x : Binary64) (grid : Int) :
    x.gridBelow grid * 10 ^ grid ≤ x.absolute ∧
      x.absolute < (x.gridBelow grid + 1) * 10 ^ grid := by
  have scale := x.gridScale_pos grid
  have cell : 0 < x.gridCell grid :=
    Nat.mul_pos (Nat.pow_pos (by decide)) (Nat.pow_pos (by decide))
  have value : ((4 * x.significand * x.gridQuarter grid : Nat) : ℚ) =
      x.absolute * x.gridScale grid := by
    rw [gridQuarter_mul, absolute, zpow_sub₀ (by norm_num)]
    push_cast
    ring
  constructor
  · have le : x.gridBelow grid * x.gridCell grid ≤ 4 * x.significand * x.gridQuarter grid :=
      Nat.div_mul_le_self _ _
    rwa [← Nat.cast_le (α := ℚ), gridCell_mul, value, mul_le_mul_iff_left₀ scale] at le
  · have lt : 4 * x.significand * x.gridQuarter grid < (x.gridBelow grid + 1) * x.gridCell grid :=
      (Nat.div_lt_iff_lt_mul cell).1 (Nat.lt_succ_self _)
    rw [← Nat.cast_lt (α := ℚ), gridCell_mul, value, mul_lt_mul_iff_left₀ scale] at lt
    exact_mod_cast lt

/-- A grid whose cells are short enough has a point that rounds to the number. Cells are short
enough with sixteen digits behind the first one, as the interval is then longer than a cell. -/
theorem exists_rounds {grid : Int} (h : x.significand ≠ 0)
    (fine : 10 ^ grid * 10 ^ 16 ≤ x.absolute) :
    x.rounds grid (x.gridBelow grid) = true ∨ x.rounds grid (x.gridBelow grid + 1) = true := by
  have unit : (0 : ℚ) < 2 ^ x.exponent := by positivity
  obtain ⟨le, lt⟩ := x.gridBelow_le grid
  rw [absolute, ← div_le_iff₀ unit, mul_div_assoc] at le
  rw [absolute, ← lt_div_iff₀ unit, mul_div_assoc] at lt
  rw [absolute, ← div_le_iff₀ unit, mul_div_right_comm] at fine
  rw [rounds_iff, rounds_iff, covers_iff, covers_iff, mul_div_assoc, mul_div_assoc,
    quarterBounds_high, Nat.cast_add, Nat.cast_one]
  -- in units of the last bit, a cell is shorter than a unit and than half of one for a power of two
  set cell : ℚ := 10 ^ grid / 2 ^ x.exponent
  set k : ℚ := (x.gridBelow grid : ℚ)
  have fits : (x.significand : ℚ) < 0x20000000000000 := by
    exact_mod_cast x.canonical.1
  norm_num at fine
  rcases le_or_gt (cell / 2) (x.significand - k * cell) with far | near
  · -- the point above is the nearer one
    refine .inr (.of_lt ?_ ?_)
    · rcases quarterBounds_low_le h with low | ⟨-, low⟩ <;> linarith
    · linarith
  · refine .inl (.of_lt ?_ ?_)
    · rcases quarterBounds_low_le h with low | ⟨power, low⟩
      · linarith
      · rw [power] at fine low near
        norm_num at fine low near
        linarith
    · linarith

theorem onGrid?_ne_none_of_rounds (tie : TieRule) {grid : Int}
    (h : x.rounds grid (x.gridBelow grid) = true ∨ x.rounds grid (x.gridBelow grid + 1) = true) :
    x.onGrid? tie grid ≠ none := by
  rw [onGrid?_eq]
  rcases h with below | above
  · rw [below]
    split <;> simp
  · rw [above]
    split
    · simp
    · split <;> simp

theorem onGrid?_ne_none (tie : TieRule) {grid : Int} (h : x.significand ≠ 0)
    (fine : 10 ^ grid * 10 ^ 16 ≤ x.absolute) : x.onGrid? tie grid ≠ none :=
  onGrid?_ne_none_of_rounds tie (exists_rounds h fine)

/-- A decimal that a grid gives is one of its points, and so has the exponent of the grid. -/
theorem onGrid?_exponent {tie : TieRule} {grid : Int} {d : Decimal}
    (h : x.onGrid? tie grid = some d) : d.exponent = grid := by
  rw [onGrid?_eq] at h
  split at h
  · cases h
    rfl
  · split at h
    · cases h
      rfl
    · split at h <;> cases h
      rfl

/-! ### The shortest decimal -/

/-- One of seventeen grids has a point that rounds to the number. The induction is on the attempts
that are left, and the last grid never fails. -/
theorem firstGrid_covers (tie : TieRule) (h : x.significand ≠ 0) {attempts digits : Nat}
    (seventeen : attempts + digits = 18) (some : 0 < attempts) :
    x.Covers (x.firstGrid tie x.pointPosition attempts digits).value := by
  induction attempts generalizing digits with
  | zero => exact absurd some (Nat.lt_irrefl 0)
  | succ attempts ih =>
      rw [firstGrid]
      split
      · next d found => exact onGrid?_covers found
      · next none =>
          refine ih (by omega) ?_
          -- the last of the grids is fine enough
          by_contra last
          obtain rfl : digits = 17 := by
            omega
          refine onGrid?_ne_none tie h ?_ none
          have power := Int.zpow_log_le_self (b := 10) (by decide) (absolute_pos h)
          rw [pointPosition_eq_log h]
          refine le_trans (le_of_eq ?_) power
          rw [← zpow_natCast, ← zpow_add₀ (by norm_num)]
          congr 1
          omega

/-- The shortest decimal of a number rounds to it, with either rule for ties. -/
theorem shortest_covers (tie : TieRule) (x : Binary64) : x.Covers (x.shortest tie).value := by
  rw [shortest]
  split
  · next zero =>
      have value : x.absolute = 0 := by
        rw [absolute, zero, Nat.cast_zero, zero_mul]
      rw [Decimal.value_eq_zero.2 rfl, ← value]
      exact x.covers_absolute
  · next nonzero =>
      rw [Decimal.value_strip]
      exact firstGrid_covers tie nonzero rfl (by decide)

/-- The text of a number reads back as the number, in every layout. Not only its value but its sign
comes back, that of zero included. -/
theorem Reading.ofText?_text (layout : DecimalLayout) (x : Binary64) :
    Reading.ofText? (x.text layout) = some (.finite x) := by
  obtain ⟨d, read, value⟩ := Numeral.readMagnitude_set layout (x.shortest layout.tie)
  refine ofText?_of_read? (n := ⟨x.negative, d⟩) ?_ (ofDecimal?_of_covers ?_)
  · rw [text, String.toList_ofList]
    exact Numeral.read?_signed read x.negative
  · rw [value]
    exact x.shortest_covers layout.tie

end DocumentTable.Binary64
