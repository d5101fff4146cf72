import DocumentTable.Number.Binary64
import DocumentTable.Proofs.Decimal
import Mathlib.Tactic.FieldSimp
import Mathlib.Tactic.Linarith

/-!
# Rounding to binary64 numbers

A double-precision number is the nearest one to all numbers of an interval around it, and reading a
decimal of that interval gives the number.

## Main definitions

* `Between`: between two ends, which count for an even number only
* `RoundsTo`: a number has a nearest whole number
* `Binary64.absolute`: the absolute value as a rational number
* `Binary64.Covers`: a number lies in the interval of those that round to a double-precision number

## Main results

* `fractionLog2_eq_log`, `roundedQuotient_eq`: the parts of rounding, as statements about fractions
* `Binary64.nearest?_of_covers`: a fraction rounds to the number that covers it
* `Binary64.ofDecimal?_of_covers`: so does a decimal

## Design notes

The program rounds natural numbers. Here the same steps are followed on rational numbers, where
scaling by a power of two is a multiplication, whichever sign the exponent has.
-/

namespace DocumentTable

/-! ### Powers with integer exponents -/

/-- A power is the quotient of two powers with natural exponents, of which one is one. The program
keeps both apart, as it has no negative exponents. -/
theorem zpow_eq_div_toNat {b : ℚ} (h : b ≠ 0) (e : Int) :
    b ^ e = b ^ e.toNat / b ^ (-e).toNat := by
  have parts : (e.toNat : Int) - ((-e).toNat : Int) = e := by
    omega
  rw [← zpow_natCast, ← zpow_natCast, ← zpow_sub₀ h, parts]

/-- A fraction with the power of a number above or below the line is multiplied by that power,
whatever the sign of the exponent is. -/
theorem mul_pow_div_pow (b num den : Nat) (h : b ≠ 0) (e : Int) :
    ((num * Nat.pow b e.toNat : Nat) : ℚ) / (den * Nat.pow b (-e).toNat : Nat) =
      num / den * (b : ℚ) ^ e := by
  rw [Nat.pow_eq, Nat.pow_eq, zpow_eq_div_toNat (Nat.cast_ne_zero.2 h)]
  push_cast
  exact mul_div_mul_comm _ _ _ _

/-! ### Intervals -/

/-- A number lies between two ends, which belong to the interval when `m` is even. -/
def Between (m : Nat) (low high v : ℚ) : Prop :=
  if m % 2 = 0 then low ≤ v ∧ v ≤ high else low < v ∧ v < high

namespace Between

variable {m : Nat} {low high v : ℚ}

theorem le (h : Between m low high v) : low ≤ v ∧ v ≤ high := by
  rw [Between] at h
  split at h
  · exact h
  · exact ⟨h.1.le, h.2.le⟩

theorem of_lt (below : low < v) (above : v < high) : Between m low high v := by
  rw [Between]
  split
  · exact ⟨below.le, above.le⟩
  · exact ⟨below, above⟩

theorem mono {low' high' : ℚ} (h : Between m low high v) (below : low' ≤ low)
    (above : high ≤ high') : Between m low' high' v := by
  rw [Between] at h ⊢
  split
  · next even =>
      rw [if_pos even] at h
      exact ⟨below.trans h.1, h.2.trans above⟩
  · next odd =>
      rw [if_neg odd] at h
      exact ⟨below.trans_lt h.1, h.2.trans_le above⟩

/-- An interval may be scaled together with what lies in it. -/
theorem div_iff {c : ℚ} (h : 0 < c) :
    Between m low high (v / c) ↔ Between m (low * c) (high * c) v := by
  rw [Between, Between, le_div_iff₀ h, div_le_iff₀ h, lt_div_iff₀ h, div_lt_iff₀ h]

end Between

/-- A number has `m` for its nearest whole number, or is halfway to it and `m` is even. -/
def RoundsTo (t : ℚ) (m : Nat) : Prop :=
  Between m (m - 1 / 2) (m + 1 / 2) t

/-- What a fraction rounds to can be found with natural numbers, by comparing twice the numerator.
-/
theorem roundsTo_div_iff {num den m : Nat} (h : 0 < den) :
    RoundsTo (num / den) m ↔
      if m % 2 = 0 then 2 * (m * den) ≤ 2 * num + den ∧ 2 * num ≤ 2 * (m * den) + den
      else 2 * (m * den) < 2 * num + den ∧ 2 * num < 2 * (m * den) + den := by
  have positive : (0 : ℚ) < den := Nat.cast_pos.2 h
  rw [RoundsTo, Between.div_iff positive, Between]
  simp only [← Nat.cast_le (α := ℚ), ← Nat.cast_lt (α := ℚ)]
  push_cast
  split
  · refine and_congr ?_ ?_ <;> constructor <;> intro h <;> linarith
  · refine and_congr ?_ ?_ <;> constructor <;> intro h <;> linarith

/-- What a fraction rounds to is its quotient or the number above, so that there are two candidates
only. -/
theorem RoundsTo.near_quotient {num den m : Nat} (h : 0 < den) (rounds : RoundsTo (num / den) m) :
    m = num / den ∨ m = num / den + 1 := by
  have weak : 2 * (m * den) ≤ 2 * num + den ∧ 2 * num ≤ 2 * (m * den) + den := by
    rw [roundsTo_div_iff h] at rounds
    split at rounds
    · exact rounds
    · exact ⟨rounds.1.le, rounds.2.le⟩
  have whole : num / den * den + num % den = num := Nat.div_add_mod' num den
  have part : num % den < den := Nat.mod_lt num h
  set q := num / den
  have above : q ≤ m := by
    by_contra less
    have : (m + 1) * den ≤ q * den := Nat.mul_le_mul_right den (Nat.lt_of_not_le less)
    rw [Nat.add_mul, Nat.one_mul] at this
    omega
  have below : m ≤ q + 1 := by
    by_contra more
    have : (q + 2) * den ≤ m * den := Nat.mul_le_mul_right den (Nat.lt_of_not_le more)
    rw [Nat.add_mul] at this
    omega
  omega

/-- The rounded quotient is the whole number that the fraction rounds to. A fraction halfway between
two of them rounds to the even one, on both sides. -/
theorem roundedQuotient_eq {num den m : Nat} (h : 0 < den) (rounds : RoundsTo (num / den) m) :
    roundedQuotient num den = m := by
  have near := rounds.near_quotient h
  have whole : num / den * den + num % den = num := Nat.div_add_mod' num den
  rw [roundsTo_div_iff h] at rounds
  rw [roundedQuotient]
  set q := num / den
  -- the rest is compared with half of the denominator, and where it is half, the even number counts
  rcases near with rfl | rfl
  · split
    · rfl
    · rw [if_neg (by split at rounds <;> omega), TieRule.resolve]
      split at rounds <;> omega
  · rw [Nat.add_mul, Nat.one_mul] at rounds
    rw [if_neg (by split at rounds <;> omega)]
    split
    · rfl
    · rw [TieRule.resolve]
      split at rounds <;> omega

/-! ### Scaling -/

theorem scaleDown_pos {num den : Nat} (h : 0 < den) (e : Int) : 0 < (scaleDown num den e).2 :=
  Nat.mul_pos h (Nat.pow_pos (by decide))

theorem scaleDown_div (num den : Nat) (e : Int) :
    ((scaleDown num den e).1 : ℚ) / (scaleDown num den e).2 = num / den / 2 ^ e := by
  have scaled := mul_pow_div_pow 2 num den (by decide) (-e)
  rwa [neg_neg, Nat.cast_ofNat, zpow_neg, ← div_eq_mul_inv] at scaled

/-- The logarithms of numerator and denominator leave two values for that of the fraction. One
comparison decides between them. -/
theorem log_div_bounds {num den : Nat} (hn : 0 < num) (hd : 0 < den) :
    (num.log2 - den.log2 : Int) - 1 ≤ Int.log 2 (num / den : ℚ) ∧
      Int.log 2 (num / den : ℚ) < (num.log2 - den.log2 : Int) + 1 := by
  have two : 1 < 2 := by decide
  have positive : (0 : ℚ) < num / den := div_pos (Nat.cast_pos.2 hn) (Nat.cast_pos.2 hd)
  have numLow : (2 : ℚ) ^ (num.log2 : Int) ≤ num := by
    exact_mod_cast Nat.log2_self_le hn.ne'
  have numHigh : (num : ℚ) < 2 ^ ((num.log2 : Int) + 1) := by
    exact_mod_cast Nat.lt_log2_self
  have denLow : (2 : ℚ) ^ (den.log2 : Int) ≤ den := by
    exact_mod_cast Nat.log2_self_le hd.ne'
  have denHigh : (den : ℚ) ≤ 2 ^ ((den.log2 : Int) + 1) := by
    exact_mod_cast Nat.lt_log2_self.le
  constructor
  · rw [← Int.zpow_le_iff_le_log two positive, Nat.cast_ofNat, sub_sub, zpow_sub₀ (by norm_num)]
    exact div_le_div₀ (Nat.cast_nonneg _) numLow (Nat.cast_pos.2 hd) denHigh
  · rw [← Int.lt_zpow_iff_log_lt two positive, Nat.cast_ofNat, sub_add_eq_add_sub,
      zpow_sub₀ (by norm_num)]
    exact div_lt_div₀ numHigh denLow (by positivity) (by positivity)

/-- The logarithm of a fraction is that of its value. Both parts have to be positive, for a
logarithm to exist. -/
theorem fractionLog2_eq_log {num den : Nat} (hn : 0 < num) (hd : 0 < den) :
    fractionLog2 num den = Int.log 2 (num / den : ℚ) := by
  have two : 1 < 2 := by decide
  have positive : (0 : ℚ) < num / den := div_pos (Nat.cast_pos.2 hn) (Nat.cast_pos.2 hd)
  obtain ⟨low, high⟩ := log_div_bounds hn hd
  set k : Int := num.log2 - den.log2 with hk
  -- one comparison decides between the two values
  have decided : (scaleDown num den k).2 ≤ (scaleDown num den k).1 ↔
      k ≤ Int.log 2 (num / den : ℚ) := by
    have scaled : (0 : ℚ) < (scaleDown num den k).2 := Nat.cast_pos.2 (scaleDown_pos hd k)
    rw [← Int.zpow_le_iff_le_log two positive, Nat.cast_ofNat, ← Nat.cast_le (α := ℚ),
      ← one_le_div₀ scaled, scaleDown_div, one_le_div₀ (by positivity)]
  show (if (scaleDown num den k).2 ≤ (scaleDown num den k).1 then k else k - 1) = _
  split
  · next h =>
      have := decided.1 h
      omega
  · next h =>
      have := mt decided.2 h
      omega

namespace Binary64

variable {x : Binary64} {v : ℚ}

/-- The absolute value of a double-precision number. -/
def absolute (x : Binary64) : ℚ :=
  x.significand * 2 ^ x.exponent

/-- A number lies in the interval of those that round to the absolute value of `x`. -/
def Covers (x : Binary64) (v : ℚ) : Prop :=
  Between x.significand (x.quarterBounds.1 * 2 ^ (x.exponent - 2))
    (x.quarterBounds.2 * 2 ^ (x.exponent - 2)) v

/-- The interval in units of the last bit. Its ends are quarters of that unit, since below a power
of two the units are half as large. -/
theorem covers_iff : x.Covers v ↔
    Between x.significand (x.quarterBounds.1 / 4) (x.quarterBounds.2 / 4) (v / 2 ^ x.exponent) := by
  have quarter : (2 : ℚ) ^ (x.exponent - 2) = 2 ^ x.exponent / 4 := by
    rw [zpow_sub₀ (by norm_num)]
    norm_num
  have unit : (0 : ℚ) < 2 ^ x.exponent := by positivity
  rw [Between.div_iff unit, Covers, quarter, div_mul_eq_mul_div, div_mul_eq_mul_div, mul_div_assoc,
    mul_div_assoc]

theorem quarterBounds_high (x : Binary64) : (x.quarterBounds.2 : ℚ) = 4 * x.significand + 2 := by
  rw [quarterBounds]
  push_cast
  rfl

theorem quarterBounds_low (x : Binary64) :
    4 * (x.significand : ℚ) - 2 ≤ x.quarterBounds.1 := by
  have lower : 4 * x.significand ≤ x.quarterBounds.1 + 2 := by
    rw [quarterBounds]
    dsimp only
    split <;> omega
  have cast : 4 * (x.significand : ℚ) ≤ x.quarterBounds.1 + 2 := by
    exact_mod_cast lower
  linarith

/-- In units of the last bit, the lower end of the interval is half a unit away, but for a power of
two, where it is a quarter. Zero is excluded, as it has no number below it. -/
theorem quarterBounds_low_le (h : x.significand ≠ 0) :
    (x.quarterBounds.1 : ℚ) / 4 ≤ x.significand - 1 / 2 ∨
      x.significand = 2 ^ 52 ∧ (x.quarterBounds.1 : ℚ) / 4 ≤ x.significand - 1 / 4 := by
  by_cases power : x.significand = 0x10000000000000 ∧ x.exponent ≠ -1074
  · refine .inr ⟨power.1, ?_⟩
    have low : x.quarterBounds.1 + 1 = 4 * x.significand := by
      rw [quarterBounds]
      dsimp only
      rw [if_pos power]
      omega
    have cast : (x.quarterBounds.1 : ℚ) + 1 = 4 * x.significand := by
      exact_mod_cast low
    linarith
  · refine .inl ?_
    have low : x.quarterBounds.1 + 2 = 4 * x.significand := by
      rw [quarterBounds]
      dsimp only
      rw [if_neg power]
      omega
    have cast : (x.quarterBounds.1 : ℚ) + 2 = 4 * x.significand := by
      exact_mod_cast low
    linarith

/-- What rounds to a number has its significand for the nearest whole number, in units of the last
bit. -/
theorem Covers.roundsTo (h : x.Covers v) : RoundsTo (v / 2 ^ x.exponent) x.significand := by
  refine (covers_iff.1 h).mono ?_ ?_
  · have := x.quarterBounds_low
    linarith
  · have := x.quarterBounds_high
    linarith

theorem zero_of_significand (h : x.significand = 0) : zero x.negative = x := by
  obtain ⟨negative, significand, exponent, canonical⟩ := x
  obtain rfl : significand = 0 := h
  obtain rfl : exponent = -1074 := canonical.2.2.2.resolve_left (by decide)
  rfl

/-- Only zero covers zero, with either sign. -/
theorem Covers.eq_zero (h : x.Covers 0) : zero x.negative = x := by
  have low := (covers_iff.1 h).le.1
  have bound := x.quarterBounds_low
  refine zero_of_significand ?_
  by_contra some
  have : (1 : ℚ) ≤ x.significand := by
    exact_mod_cast Nat.one_le_iff_ne_zero.2 some
  rw [zero_div] at low
  linarith

/-- The logarithm of what rounds to a number is at most that of the number: the next power of two is
beyond the interval. -/
theorem Covers.log_le (h : x.Covers v) (positive : 0 < v) :
    Int.log 2 v ≤ x.exponent + 52 := by
  have unit : (0 : ℚ) < 2 ^ x.exponent := by positivity
  have upper := h.roundsTo.le.2
  have fits : (x.significand : ℚ) + 1 ≤ 2 ^ 53 := by
    exact_mod_cast x.canonical.1
  have below : v < 2 ^ (x.exponent + 53) := by
    rw [zpow_add₀ (by norm_num), mul_comm, ← div_lt_iff₀ unit]
    norm_num at fits ⊢
    linarith
  have two : 1 < 2 := by decide
  have log : Int.log 2 v < x.exponent + 53 := by
    rw [← Int.lt_zpow_iff_log_lt two positive, Nat.cast_ofNat]
    exact below
  omega

/-- What rounds to a number and has a smaller logarithm lies in the quarter below a power of two.
Numbers with the least exponent are excluded, since they have no smaller unit below them. -/
theorem Covers.of_log_lt (h : x.Covers v) (positive : 0 < v) (normal : x.exponent ≠ -1074)
    (less : Int.log 2 v < x.exponent + 52) :
    x.significand = 0x10000000000000 ∧ 2 ^ 52 - 1 / 4 ≤ v / 2 ^ x.exponent ∧
      v / 2 ^ x.exponent < 2 ^ 52 := by
  have unit : (0 : ℚ) < 2 ^ x.exponent := by positivity
  have large : 2 ^ 52 ≤ x.significand := x.canonical.2.2.2.resolve_right normal
  have below : v / 2 ^ x.exponent < 2 ^ 52 := by
    have := (Int.lt_zpow_iff_log_lt (by decide) positive).2 less
    rw [div_lt_iff₀ unit, mul_comm, ← zpow_natCast, ← zpow_add₀ (by norm_num)]
    exact_mod_cast this
  have low := (covers_iff.1 h).le.1
  have power : x.significand = 2 ^ 52 := by
    refine le_antisymm ?_ large
    -- the bound below a larger significand is above the power of two
    by_contra more
    have cast : (2 : ℚ) ^ 52 + 1 ≤ x.significand := by
      exact_mod_cast Nat.lt_of_not_le more
    have := x.quarterBounds_low
    linarith
  refine ⟨power, ?_, below⟩
  have bound : x.quarterBounds.1 = 4 * 2 ^ 52 - 1 := by
    rw [quarterBounds, power]
    exact if_pos ⟨rfl, normal⟩
  rw [bound] at low
  norm_num at low ⊢
  linarith

/-- What lies in that quarter is rounded with a smaller unit, in which it rounds to the power of two
all the same. The significand then has one bit too many, and is carried over. -/
theorem Covers.carry (h : x.Covers v) (positive : 0 < v) (normal : x.exponent ≠ -1074)
    (less : Int.log 2 v < x.exponent + 52) :
    Int.log 2 v = x.exponent + 51 ∧ RoundsTo (v / 2 ^ (x.exponent - 1)) 0x20000000000000 := by
  obtain ⟨-, low, high⟩ := h.of_log_lt positive normal less
  have two : 1 < 2 := by decide
  have unit : (0 : ℚ) < 2 ^ x.exponent := by positivity
  have log : x.exponent + 51 ≤ Int.log 2 v := by
    rw [← Int.zpow_le_iff_le_log two positive, Nat.cast_ofNat, zpow_add₀ (by norm_num), mul_comm,
      ← le_div_iff₀ unit]
    norm_num at low ⊢
    linarith
  have doubled : v / 2 ^ (x.exponent - 1) = 2 * (v / 2 ^ x.exponent) := by
    rw [zpow_sub_one₀ (by norm_num)]
    field_simp
  refine ⟨by omega, ?_⟩
  rw [doubled, RoundsTo, Between, if_pos rfl]
  norm_num at low high ⊢
  constructor <;> linarith

/-! ### Rounding -/

theorem ofParts?_self (x : Binary64) :
    ofParts? x.negative x.significand x.exponent = some x :=
  dif_pos x.canonical

/-- The number nearest to a positive fraction, once the unit of its last bit is known. The case of
one bit too many is where a power of two is reached from below. -/
theorem nearest?_eq {num den m : Nat} {e : Int} (hn : 0 < num) (hd : 0 < den)
    (unit : max (Int.log 2 (num / den : ℚ) - 52) (-1074) = e)
    (rounds : RoundsTo (num / den / 2 ^ e) m) (negative : Bool) :
    nearest? negative num den =
      if m = 0x20000000000000 then ofParts? negative 0x10000000000000 (e + 1)
      else ofParts? negative m e := by
  have rounded : roundedQuotient (scaleDown num den e).1 (scaleDown num den e).2 = m := by
    refine roundedQuotient_eq (scaleDown_pos hd e) ?_
    rwa [scaleDown_div]
  rw [nearest?, if_neg hn.ne', fractionLog2_eq_log hn hd, unit]
  show (if roundedQuotient (scaleDown num den e).1 (scaleDown num den e).2 = 0x20000000000000 then _
    else ofParts? negative (roundedQuotient (scaleDown num den e).1 (scaleDown num den e).2) e) = _
  rw [rounded]

/-- A fraction rounds to the number that covers it, subnormal numbers and zero included. -/
theorem nearest?_of_covers {num den : Nat} (hd : 0 < den) (h : x.Covers (num / den)) :
    nearest? x.negative num den = some x := by
  rcases Nat.eq_zero_or_pos num with rfl | hn
  · rw [Nat.cast_zero, zero_div] at h
    rw [nearest?, if_pos rfl, h.eq_zero]
  · have positive : (0 : ℚ) < num / den := div_pos (Nat.cast_pos.2 hn) (Nat.cast_pos.2 hd)
    have upper := h.log_le positive
    have least := x.canonical.2.1
    by_cases unit : max (Int.log 2 (num / den : ℚ) - 52) (-1074) = x.exponent
    · rw [nearest?_eq hn hd unit h.roundsTo, if_neg x.canonical.1.ne, ofParts?_self]
    · obtain ⟨power, -, -⟩ := h.of_log_lt positive (by omega) (by omega)
      obtain ⟨log, rounds⟩ := h.carry positive (by omega) (by omega)
      have smaller : max (Int.log 2 (num / den : ℚ) - 52) (-1074) = x.exponent - 1 := by
        omega
      rw [nearest?_eq hn hd smaller rounds, if_pos rfl, sub_add_cancel, ← power, ofParts?_self]

/-- The largest numbers have fewer than 310 digits before the point. Decimals with more of them are
refused at once. -/
theorem two_pow_lt_ten_pow : (2 : ℚ) ^ 1024 < 10 ^ 310 := by
  calc (2 : ℚ) ^ 1024 = (2 ^ 93) ^ 11 * 2 := by
        rw [← pow_mul, ← pow_succ]
    _ ≤ (10 ^ 28) ^ 11 * 2 := by
        refine mul_le_mul_of_nonneg_right (pow_le_pow_left₀ ?_ ?_ 11) ?_ <;> norm_num
    _ < (10 ^ 28) ^ 11 * 10 ^ 2 := by
        refine mul_lt_mul_of_pos_left ?_ ?_ <;> norm_num
    _ = 10 ^ 310 := by
        rw [← pow_mul, ← pow_add]

/-- Half the least number has fewer than 325 zeros behind the point. Decimals with more of them are
zero at once. -/
theorem two_pow_le_ten_pow : (2 : ℚ) ^ 1075 ≤ 10 ^ 324 := by
  calc (2 : ℚ) ^ 1075 = (2 ^ 93) ^ 11 * 2 ^ 52 := by
        rw [← pow_mul, ← pow_add]
    _ ≤ (10 ^ 28) ^ 11 * 10 ^ 16 := by
        refine mul_le_mul (pow_le_pow_left₀ ?_ ?_ 11) ?_ ?_ ?_ <;> norm_num
    _ = 10 ^ 324 := by
        rw [← pow_mul, ← pow_add]

/-- What rounds to a number has at most 310 digits before the point, so that it is not refused. -/
theorem Covers.log_ten_lt (h : x.Covers v) (positive : 0 < v) : Int.log 10 v < 310 := by
  have ten : 1 < 10 := by decide
  have two : 1 < 2 := by decide
  have log := h.log_le positive
  have bound := x.canonical.2.2.1
  have small : v < 2 ^ (1024 : Int) :=
    (Int.lt_zpow_iff_log_lt two positive).2 (by omega)
  rw [← Int.lt_zpow_iff_log_lt ten positive]
  exact small.trans two_pow_lt_ten_pow

/-- What rounds to a number other than zero is not below the least numbers, so that it is not taken
for zero. -/
theorem Covers.le_log_ten (h : x.Covers v) (positive : 0 < v) (nonzero : x.significand ≠ 0) :
    -324 ≤ Int.log 10 v := by
  have ten : 1 < 10 := by decide
  have unit : (2 : ℚ) ^ (-1074 : Int) ≤ 2 ^ x.exponent :=
    zpow_le_zpow_right₀ (by norm_num) x.canonical.2.1
  have one : (1 : ℚ) ≤ x.significand := by
    exact_mod_cast Nat.one_le_iff_ne_zero.2 nonzero
  have low := h.roundsTo.le.1
  rw [le_div_iff₀ (by positivity)] at low
  rw [← Int.zpow_le_iff_le_log ten positive]
  calc (10 : ℚ) ^ (-324 : Int) ≤ 2 ^ (-1075 : Int) :=
        inv_anti₀ (by positivity) two_pow_le_ten_pow
    _ = 1 / 2 * 2 ^ (-1074 : Int) := by
        rw [one_div, ← zpow_neg_one, ← zpow_add₀ (by norm_num)]
        rfl
    _ ≤ (x.significand - 1 / 2) * 2 ^ x.exponent := by
        refine mul_le_mul ?_ unit (by positivity) ?_ <;> linarith
    _ ≤ v := low

/-- A decimal rounds to the number that covers it, however many digits it has. -/
theorem ofDecimal?_of_covers {d : Decimal} (h : x.Covers d.value) :
    ofDecimal? x.negative d = some x := by
  rw [ofDecimal?]
  split
  · next none =>
      rw [Decimal.value_eq_zero.2 none] at h
      rw [h.eq_zero]
  · next some =>
      have coefficient : 0 < d.coefficient := Nat.pos_of_ne_zero some
      have positive := Decimal.value_pos.2 coefficient
      -- what is covered is not too large, so that only numbers too small for any digit remain apart
      have high := h.log_ten_lt positive
      dsimp only
      rw [Decimal.point_eq_log coefficient, if_neg (by omega)]
      split
      · next tiny =>
          have none : x.significand = 0 := by
            by_contra nonzero
            have := h.le_log_ten positive nonzero
            omega
          rw [zero_of_significand none]
      · refine nearest?_of_covers (Nat.pow_pos (by decide)) ?_
        have fraction := mul_pow_div_pow 10 d.coefficient 1 (by decide) d.exponent
        rw [Nat.one_mul, Nat.cast_one, div_one, Nat.cast_ofNat] at fraction
        rwa [fraction]

end Binary64

end DocumentTable
