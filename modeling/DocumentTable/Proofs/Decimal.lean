import DocumentTable.Proofs.Numeral
import Mathlib.Data.Int.Log
import Mathlib.Algebra.Order.Field.Power
import Mathlib.Data.Rat.Floor
import Mathlib.Tactic.Positivity
import Mathlib.Tactic.Ring

/-!
# Decimals in text

A decimal stands for a rational number, and whatever the layout, the text of a decimal reads back as
the number it stands for.

## Main definitions

* `Decimal.value`: the number that a decimal stands for

## Main results

* `Decimal.point_eq_log`: the point lies behind as many digits as the number has before its point
* `Decimal.value_strip`: trailing zeros do not matter
* `Numeral.readMagnitude_set`: the text of a decimal reads back as its number
* `DecimalLayout.readInteger_set`: a text that always has a point is not that of an integer

## Design notes

The decimal that is read need not be the one that was set: a whole number gains a digit after the
point. So texts are compared by the numbers they stand for.
-/

namespace DocumentTable

/-! ### Digits -/

theorem all_isDigit_digitsOf (n : Nat) : (digitsOf n).all Char.isDigit = true :=
  all_isDigit_toDigits n

theorem digitsOf_ne_nil (n : Nat) : digitsOf n ≠ [] :=
  Nat.toDigits_ne_nil

/-- A positive number has one digit more than its logarithm. Zero has a digit as well, but no
logarithm. -/
theorem length_digitsOf {n : Nat} (h : 0 < n) : (digitsOf n).length = Nat.log 10 n + 1 := by
  have ten : 1 < 10 := by decide
  refine Nat.le_antisymm ?_ ?_
  · rw [digitsOf, Nat.length_toDigits_le_iff ten (Nat.succ_pos _)]
    exact Nat.lt_pow_succ_log_self ten n
  · refine Nat.succ_le_of_lt (Nat.lt_of_not_le ?_)
    intro short
    have nonempty : 0 < (digitsOf n).length := List.length_pos_iff.2 (digitsOf_ne_nil n)
    have small : n < 10 ^ (digitsOf n).length :=
      (Nat.length_toDigits_le_iff ten nonempty).1 (Nat.le_refl _)
    exact absurd (Nat.log_lt_of_lt_pow h.ne' small) (Nat.not_lt.2 short)

theorem digitsValue_append (a b : List Char) (start : Nat) :
    digitsValue (a ++ b) start = digitsValue b (digitsValue a start) :=
  List.foldl_append

/-- Zeros behind a number multiply it by a power of ten, one for each of them. -/
theorem digitsValue_zeros (n start : Nat) :
    digitsValue (List.replicate n '0') start = start * 10 ^ n := by
  induction n generalizing start with
  | zero => rw [List.replicate_zero, pow_zero, mul_one, digitsValue, List.foldl_nil]
  | succ n ih =>
      have zero : digitValue '0' = 0 := rfl
      rw [List.replicate_succ, digitsValue, List.foldl_cons, zero]
      refine (ih _).trans ?_
      ring

/-- The digits of a number have the number for their value. -/
theorem digitsValue_digitsOf (n : Nat) : digitsValue (digitsOf n) 0 = n := by
  have digits := readDigits_toDigits n
  rw [readDigits, if_neg (by simp), if_pos (all_isDigit_toDigits n)] at digits
  exact Option.some.inj digits

/-- A run of digits ends where something else begins, or with the text. -/
theorem takeDigits_append {digits rest : List Char} (h : digits.all Char.isDigit = true)
    (stop : ∀ c ∈ rest.head?, c.isDigit = false) :
    takeDigits (digits ++ rest) = (digits, rest) := by
  rw [List.all_eq_true] at h
  rw [takeDigits, List.takeWhile_append_of_pos h, List.dropWhile_append_of_pos h]
  cases rest with
  | nil => rw [List.takeWhile_nil, List.dropWhile_nil, List.append_nil]
  | cons c rest =>
      have other : ¬ c.isDigit = true := by
        rw [stop c rfl]
        decide
      rw [List.takeWhile_cons_of_neg other, List.dropWhile_cons_of_neg other, List.append_nil]

/-- Only signs and digits are in the text of an integer. A point or an exponent makes a decimal of
it. -/
theorem readInteger_eq_none {text : List Char} {c : Char} (h : c ∈ text)
    (digit : c.isDigit = false) (minus : c ≠ '-') (plus : c ≠ '+') : readInteger text = none := by
  have unread {digits : List Char} (h : c ∈ digits) : readDigits digits = none := by
    have mixed : ¬ digits.all Char.isDigit = true := by
      intro all
      rw [List.all_eq_true.1 all c h] at digit
      cases digit
    rw [readDigits, if_neg mixed, ite_self]
  unfold readInteger
  split
  · rw [unread ((List.mem_cons.1 h).resolve_left minus)]
    rfl
  · unfold readUnsigned
    split
    · rw [unread ((List.mem_cons.1 h).resolve_left plus), Option.map_none]
    · rw [unread h, Option.map_none]

/-- An integer that is written with its sign is read as the integer, that of zero included. -/
theorem readInteger_signed (n : Int) :
    readInteger ((if n < 0 then '-' else '+') :: digitsOf n.natAbs) = some n := by
  have digits : readDigits (digitsOf n.natAbs) = some n.natAbs := readDigits_toDigits n.natAbs
  split
  · rw [readInteger, digits]
    show some (-(n.natAbs : Int)) = some n
    exact congrArg some (by omega)
  · show (readDigits (digitsOf n.natAbs)).map Int.ofNat = some n
    rw [digits]
    show some (n.natAbs : Int) = some n
    exact congrArg some (by omega)

/-- Text without a sign is read as its digits are, and is no integer when there are none. -/
theorem readInteger_of_isDigit {digits : List Char} (h : digits.all Char.isDigit = true) :
    readInteger digits = (readDigits digits).map Int.ofNat := by
  rw [← readUnsigned_of_isDigit h]
  unfold readInteger
  split
  · simp at h
  · rfl

/-- The text of an integer stands for the integer, negative ones included. -/
theorem readInteger_toString (n : Int) : readInteger (toString n).toList = some n := by
  cases n with
  | ofNat n =>
      have text : (toString (Int.ofNat n)).toList = digitsOf n := String.toList_ofList
      rw [text, readInteger_of_isDigit (all_isDigit_digitsOf n)]
      exact congrArg (Option.map Int.ofNat) (readDigits_toDigits n)
  | negSucc n =>
      have text : (toString (Int.negSucc n)).toList = '-' :: digitsOf (n + 1) := by
        show ("-" ++ String.ofList (digitsOf (n + 1))).toList = _
        rw [String.toList_append]
        exact congrArg ('-' :: ·) String.toList_ofList
      have signed := readInteger_signed (Int.negSucc n)
      rw [if_pos (Int.negSucc_lt_zero n)] at signed
      rw [text]
      exact signed

/-! ### The number of a decimal -/

/-- A power of the base adds its exponent to the logarithm, whatever its sign is. -/
theorem log_mul_zpow {b : Nat} (hb : 1 < b) {r : ℚ} (h : 0 < r) (e : Int) :
    Int.log b (r * b ^ e) = Int.log b r + e := by
  have power : (0 : ℚ) < (b : ℚ) ^ e := by
    have : (0 : ℚ) < b := Nat.cast_pos.2 (Nat.lt_of_succ_lt hb)
    positivity
  have base : (b : ℚ) ≠ 0 := Nat.cast_ne_zero.2 (Nat.ne_of_gt (Nat.lt_of_succ_lt hb))
  refine eq_of_forall_le_iff fun k => ?_
  rw [← Int.zpow_le_iff_le_log hb (mul_pos h power), ← sub_le_iff_le_add,
    ← Int.zpow_le_iff_le_log hb h, zpow_sub₀ base, div_le_iff₀ power]

namespace Decimal

/-- The number that a decimal stands for. -/
def value (d : Decimal) : ℚ :=
  d.coefficient * 10 ^ d.exponent

theorem value_pos {d : Decimal} : 0 < d.value ↔ 0 < d.coefficient := by
  have power : (0 : ℚ) < 10 ^ d.exponent := by positivity
  rw [value, mul_pos_iff_of_pos_right power, Nat.cast_pos]

theorem value_eq_zero {d : Decimal} : d.value = 0 ↔ d.coefficient = 0 := by
  have power : (10 : ℚ) ^ d.exponent ≠ 0 := by positivity
  rw [value, mul_eq_zero_iff_right power, Nat.cast_eq_zero]

/-- The point lies behind as many digits as the number has before its point. A coefficient of zero
has no such place. -/
theorem point_eq_log {d : Decimal} (h : 0 < d.coefficient) :
    ((digitsOf d.coefficient).length : Int) + d.exponent = Int.log 10 d.value + 1 := by
  have log : Int.log 10 d.value = Nat.log 10 d.coefficient + d.exponent := by
    have scaled := log_mul_zpow (b := 10) (by decide) (Nat.cast_pos.2 h) d.exponent
    rwa [Int.log_natCast, Nat.cast_ofNat] at scaled
  rw [length_digitsOf h, log]
  push_cast
  ring

/-- Trailing zeros of the coefficient may be moved into the exponent, as many as the fuel allows. -/
theorem value_stripZeros (fuel c : Nat) (e : Int) : (stripZeros fuel c e).value = c * 10 ^ e := by
  induction fuel generalizing c e with
  | zero => rfl
  | succ fuel ih =>
      rw [stripZeros]
      split
      · next h =>
          have whole : (c : ℚ) = (c / 10 : Nat) * 10 := by
            exact_mod_cast (Nat.div_mul_cancel (Nat.dvd_of_mod_eq_zero h.2)).symm
          rw [ih, zpow_add_one₀ (by norm_num), whole]
          ring
      · rfl

theorem value_strip (d : Decimal) : d.strip.value = d.value :=
  value_stripZeros _ _ _

end Decimal

/-! ### The text of a decimal -/

namespace Numeral

variable {whole fraction tail digits : List Char} {exponent : Int}

/-- A numeral with a point. The digits behind it count for the coefficient, and lower the exponent.
-/
theorem readMagnitude_point (nonempty : whole ≠ []) (hw : whole.all Char.isDigit = true)
    (hf : fraction.all Char.isDigit = true) (stop : ∀ c ∈ tail.head?, c.isDigit = false)
    (read : readExponent tail = some exponent) :
    readMagnitude (whole ++ '.' :: (fraction ++ tail)) =
      some ⟨digitsValue (whole ++ fraction) 0, exponent - fraction.length⟩ := by
  have point : takeDigits (whole ++ '.' :: (fraction ++ tail)) =
      (whole, '.' :: (fraction ++ tail)) := by
    refine takeDigits_append hw ?_
    rintro c ⟨⟩
    rfl
  have kept : ¬ (whole.isEmpty && fraction.isEmpty) = true := by
    simp [nonempty]
  simp only [readMagnitude, point, takeDigits_append hf stop, if_neg kept, read, Option.map_some]

/-- A numeral without a point, whose exponent is that of the text. -/
theorem readMagnitude_whole (nonempty : whole ≠ []) (hw : whole.all Char.isDigit = true)
    (stop : ∀ c ∈ tail.head?, c.isDigit = false) (noPoint : tail.head? ≠ some '.')
    (read : readExponent tail = some exponent) :
    readMagnitude (whole ++ tail) = some ⟨digitsValue whole 0, exponent⟩ := by
  have kept : ¬ (whole.isEmpty && List.isEmpty ([] : List Char)) = true := by
    simp [nonempty]
  rw [readMagnitude, takeDigits_append hw stop]
  dsimp only
  split
  · exact absurd rfl noPoint
  · simp only [if_neg kept, read, Option.map_some, List.append_nil, List.length_nil, Nat.cast_zero,
      sub_zero]

private theorem all_isDigit_zeros (n : Nat) : (List.replicate n '0').all Char.isDigit = true := by
  simp

/-- Zeros between the point and the first digit move the digits behind the point. -/
theorem readMagnitude_leading (all : digits.all Char.isDigit = true) (n : Nat) :
    readMagnitude ('0' :: '.' :: (List.replicate n '0' ++ digits)) =
      some ⟨digitsValue digits 0, -(n + digits.length : Nat)⟩ := by
  have fraction : (List.replicate n '0' ++ digits).all Char.isDigit = true := by
    rw [List.all_append, all_isDigit_zeros, all, Bool.and_self]
  have value : digitsValue (['0'] ++ (List.replicate n '0' ++ digits)) 0 =
      digitsValue digits 0 := by
    rw [digitsValue_append, digitsValue_append, digitsValue_zeros]
    show digitsValue digits (0 * 10 ^ n) = _
    rw [zero_mul]
  have read : readMagnitude (['0'] ++ '.' :: (List.replicate n '0' ++ digits ++ [])) = _ :=
    readMagnitude_point (by simp) rfl fraction (by simp) rfl
  rwa [List.append_nil, value, List.length_append, List.length_replicate, zero_sub] at read

/-- Zeros between the last digit and the point count as digits. Some layouts put a point and a zero
behind them, which changes nothing. -/
theorem readMagnitude_trailing (nonempty : digits ≠ []) (all : digits.all Char.isDigit = true)
    (n : Nat) (pointAlways : Bool) :
    ∃ d, readMagnitude (digits ++ List.replicate n '0' ++ if pointAlways then ['.', '0'] else []) =
        some d ∧
      d.value = digitsValue digits 0 * 10 ^ n := by
  have run : (digits ++ List.replicate n '0').all Char.isDigit = true := by
    rw [List.all_append, all, all_isDigit_zeros, Bool.and_self]
  have padded : digits ++ List.replicate n '0' ≠ [] := by
    simp [nonempty]
  have value : digitsValue (digits ++ List.replicate n '0') 0 = digitsValue digits 0 * 10 ^ n := by
    rw [digitsValue_append, digitsValue_zeros]
  cases pointAlways with
  | true =>
      have read : readMagnitude (digits ++ List.replicate n '0' ++ '.' :: (['0'] ++ [])) = _ :=
        readMagnitude_point padded run rfl (by simp) rfl
      refine ⟨_, read, ?_⟩
      rw [digitsValue_append, value]
      show ((10 * (digitsValue digits 0 * 10 ^ n) + 0 : Nat) : ℚ) * 10 ^ (-1 : Int) = _
      push_cast
      ring
  | false =>
      have read : readMagnitude (digits ++ List.replicate n '0' ++ []) = _ :=
        readMagnitude_whole padded run (by simp) (by simp) rfl
      refine ⟨_, read, ?_⟩
      rw [value, Decimal.value, zpow_zero, mul_one]
      push_cast
      rfl

/-- A point among the digits, with a digit on either side of it. -/
theorem readMagnitude_inner (all : digits.all Char.isDigit = true) {n : Nat} (first : 0 < n)
    (last : n < digits.length) :
    readMagnitude (digits.take n ++ '.' :: digits.drop n) =
      some ⟨digitsValue digits 0, -(digits.length - n : Nat)⟩ := by
  have parts := List.take_append_drop n digits
  have both :
      (digits.take n).all Char.isDigit = true ∧ (digits.drop n).all Char.isDigit = true := by
    rw [← Bool.and_eq_true, ← List.all_append, parts, all]
  have nonempty : digits.take n ≠ [] := by
    rw [← List.length_pos_iff, List.length_take]
    omega
  have read : readMagnitude (digits.take n ++ '.' :: (digits.drop n ++ [])) = _ :=
    readMagnitude_point nonempty both.1 both.2 (by simp) rfl
  rwa [List.append_nil, parts, List.length_drop, zero_sub] at read

/-- Digits with a point stand for the number whose point is there. The cases are those of the
layout: the point is before the digits, behind them or among them. -/
theorem readMagnitude_setPoint (layout : DecimalLayout) (nonempty : digits ≠ [])
    (all : digits.all Char.isDigit = true) (point : Int) :
    ∃ d, readMagnitude (layout.setPoint digits point) = some d ∧
      d.value = digitsValue digits 0 * 10 ^ (point - digits.length) := by
  have length : 0 < digits.length := List.length_pos_iff.2 nonempty
  rw [DecimalLayout.setPoint]
  -- the layout counts characters, so that exponents are differences of natural numbers
  split
  · refine ⟨_, readMagnitude_leading all (-point).toNat, ?_⟩
    have exponent : -((-point).toNat + digits.length : Nat) = point - digits.length := by
      omega
    rw [Decimal.value, exponent]
  · split
    · obtain ⟨d, read, value⟩ := readMagnitude_trailing nonempty all
        (point.toNat - digits.length) layout.pointAlways
      refine ⟨d, read, ?_⟩
      have exponent : point - digits.length = (point.toNat - digits.length : Nat) := by
        omega
      rw [value, exponent, zpow_natCast]
    · refine ⟨_, readMagnitude_inner all (by omega) (by omega), ?_⟩
      have exponent : -(digits.length - point.toNat : Nat) = point - digits.length := by
        omega
      rw [Decimal.value, exponent]

/-- Digits with an exponent stand for the number whose point is behind the first of them and is then
moved by the exponent. -/
theorem readMagnitude_setExponent (nonempty : digits ≠ []) (all : digits.all Char.isDigit = true)
    (exponent : Int) :
    readMagnitude (DecimalLayout.setExponent digits exponent) =
      some ⟨digitsValue digits 0, exponent + 1 - digits.length⟩ := by
  obtain ⟨first, rest, rfl⟩ := List.exists_cons_of_ne_nil nonempty
  rw [List.all_cons, Bool.and_eq_true] at all
  have one : [first].all Char.isDigit = true := by
    rw [List.all_cons, all.1]
    rfl
  set tail := 'e' :: (if exponent < 0 then '-' else '+') :: digitsOf exponent.natAbs with htail
  have read : readExponent tail = some exponent := readInteger_signed exponent
  have letter : ∀ c ∈ tail.head?, c.isDigit = false := by
    rintro c ⟨⟩
    rfl
  cases rest with
  | nil =>
      have noPoint : tail.head? ≠ some '.' := by
        rw [htail, List.head?_cons]
        decide
      have whole := readMagnitude_whole (by simp) one letter noPoint read
      rwa [← add_sub_cancel_right exponent 1] at whole
  | cons second others =>
      have point : readMagnitude ([first] ++ '.' :: (second :: others ++ tail)) = _ :=
        readMagnitude_point (by simp) one all.2 letter read
      have moved : exponent - (second :: others).length =
          exponent + 1 - (first :: second :: others).length := by
        rw [List.length_cons (a := first)]
        omega
      rw [moved] at point
      exact (congrArg readMagnitude (List.append_assoc _ _ _)).trans point

/-- The text of a decimal reads back as the number that the decimal stands for. It may read back as
another decimal of that number, as zeros are added. -/
theorem readMagnitude_set (layout : DecimalLayout) (d : Decimal) :
    ∃ d', readMagnitude (layout.set d) = some d' ∧ d'.value = d.value := by
  rw [DecimalLayout.set]
  split
  · next none =>
      have zero : d.value = 0 := Decimal.value_eq_zero.2 none
      rw [zero]
      split
      · exact ⟨⟨0, -1⟩, by decide, Decimal.value_eq_zero.2 rfl⟩
      · exact ⟨⟨0, 0⟩, by decide, Decimal.value_eq_zero.2 rfl⟩
  · have digits := digitsOf_ne_nil d.coefficient
    have all := all_isDigit_digitsOf d.coefficient
    dsimp only
    split
    · obtain ⟨d', read, value⟩ := readMagnitude_setPoint layout digits all
        ((digitsOf d.coefficient).length + d.exponent)
      rw [add_sub_cancel_left, digitsValue_digitsOf] at value
      exact ⟨d', read, value⟩
    · refine ⟨_, readMagnitude_setExponent digits all _, ?_⟩
      rw [sub_add_cancel, add_sub_cancel_left, digitsValue_digitsOf]

end Numeral

namespace DecimalLayout

/-- A text that always has a point is not that of an integer, whatever sign it is given. A float
that is a whole number stays a float in this way. -/
theorem readInteger_set {layout : DecimalLayout} (always : layout.pointAlways = true) (d : Decimal)
    (sign : List Char) : readInteger (sign ++ layout.set d) = none := by
  suffices ∃ c ∈ layout.set d, c = '.' ∨ c = 'e' by
    obtain ⟨c, mem, rfl | rfl⟩ := this
    · exact readInteger_eq_none (List.mem_append_right sign mem) rfl (by decide) (by decide)
    · exact readInteger_eq_none (List.mem_append_right sign mem) rfl (by decide) (by decide)
  rw [set]
  split
  · exact ⟨'.', by simp, .inl rfl⟩
  · dsimp only
    split
    · refine ⟨'.', ?_, .inl rfl⟩
      rw [setPoint]
      split
      · simp
      · split <;> simp
    · exact ⟨'e', by simp [setExponent], .inr rfl⟩

end DecimalLayout

end DocumentTable
