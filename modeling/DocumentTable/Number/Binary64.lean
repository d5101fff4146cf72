import DocumentTable.Number.Decimal

/-!
# Finite binary64 numbers

The finite double-precision numbers as exact dyadic fractions, with the two conversions that a
document needs: the nearest number to a decimal text, and the shortest decimal that reads back as
the number.

## Main definitions

* `Binary64`: sign, significand and exponent in the one canonical form
* `Binary64.nearest?`: the number nearest to a fraction, a half going to the even significand
* `Binary64.shortest`: the fewest digits that are nearest to the number
* `Binary64.Reading`: what a decimal text stands for, infinities and not-a-number included

## Design notes

All arithmetic is on natural numbers, so that rounding is a statement about integers. A number is
`significand * 2 ^ exponent`. The exponent is the least one except where the significand would grow
beyond 53 bits, so equal numbers have equal fields; the two zeros differ in sign.
-/

namespace DocumentTable

/-- A finite double-precision number. -/
@[ext]
structure Binary64 where
  negative : Bool
  significand : Nat
  exponent : Int
  canonical :
    significand < 0x20000000000000 ∧ -1074 ≤ exponent ∧ exponent ≤ 971 ∧
      (0x10000000000000 ≤ significand ∨ exponent = -1074)
  deriving DecidableEq

/-- The quotient rounded to the nearest whole number, a half going to the even neighbour. -/
def roundedQuotient (num den : Nat) : Nat :=
  let q := num / den
  let twice := 2 * (num % den)
  if twice < den then q else if den < twice then q + 1 else TieRule.toEven.resolve q

/-- The fraction `num / den` divided by a power of two. -/
def scaleDown (num den : Nat) (e : Int) : Nat × Nat :=
  (num * Nat.pow 2 (-e).toNat, den * Nat.pow 2 e.toNat)

/-- The exponent `k` with `2 ^ k ≤ num / den < 2 ^ (k + 1)`, for a positive fraction. -/
def fractionLog2 (num den : Nat) : Int :=
  let k : Int := num.log2 - den.log2
  let (n, d) := scaleDown num den k
  if d ≤ n then k else k - 1

namespace Binary64

/-- Zero of the given sign. -/
def zero (negative : Bool) : Binary64 :=
  ⟨negative, 0, -1074, by decide⟩

instance : Inhabited Binary64 :=
  ⟨zero false⟩

/-- The number with the given fields, when they are canonical. -/
def ofParts? (negative : Bool) (significand : Nat) (exponent : Int) : Option Binary64 :=
  if h : significand < 0x20000000000000 ∧ -1074 ≤ exponent ∧ exponent ≤ 971 ∧
      (0x10000000000000 ≤ significand ∨ exponent = -1074) then
    some ⟨negative, significand, exponent, h⟩
  else none

/-- The number nearest to a fraction; `none` when that lies beyond the largest finite number. -/
def nearest? (negative : Bool) (num den : Nat) : Option Binary64 :=
  if num = 0 then some (zero negative)
  else
    let e := max (fractionLog2 num den - 52) (-1074)
    let (n, d) := scaleDown num den e
    let m := roundedQuotient n d
    if m = 0x20000000000000 then ofParts? negative 0x10000000000000 (e + 1)
    else ofParts? negative m e

/-- The number nearest to a decimal number. Decimals that lie outside all finite numbers, or
closer to zero than half the least one, are decided by the position of their first digit. -/
def ofDecimal? (negative : Bool) (d : Decimal) : Option Binary64 :=
  if d.coefficient = 0 then some (zero negative)
  else
    let point := (digitsOf d.coefficient).length + d.exponent
    if 310 < point then none
    else if point < -330 then some (zero negative)
    else
      nearest? negative (d.coefficient * Nat.pow 10 d.exponent.toNat)
        (Nat.pow 10 (-d.exponent).toNat)

/-- The number nearest to a natural number. -/
def ofNat? (n : Nat) : Option Binary64 :=
  nearest? false n 1

/-- The numerator and denominator of the absolute value. -/
def magnitude (x : Binary64) : Nat × Nat :=
  (x.significand * Nat.pow 2 x.exponent.toNat, Nat.pow 2 (-x.exponent).toNat)

/-- The product of the absolute values, rounded, under the sign of the first factor. -/
def scaleBy? (x y : Binary64) : Option Binary64 :=
  nearest? x.negative (x.magnitude.1 * y.magnitude.1) (x.magnitude.2 * y.magnitude.2)

/-- The quotient of the absolute values, rounded, under the sign of the dividend. -/
def unscaleBy? (x y : Binary64) : Option Binary64 :=
  nearest? x.negative (x.magnitude.1 * y.magnitude.2) (x.magnitude.2 * y.magnitude.1)

/-- The value counted in units of the least positive number. -/
def units (x : Binary64) : Int :=
  let n : Int := x.significand * Nat.pow 2 (x.exponent + 1074).toNat
  if x.negative then -n else n

/-- The reals that round to a number, in quarter steps of its significand: a lower and an upper end,
which belong to the interval exactly when the significand is even. -/
def quarterBounds (x : Binary64) : Nat × Nat :=
  let m := 4 * x.significand
  (if x.significand = 0x10000000000000 ∧ x.exponent ≠ -1074 then m - 1 else m - 2, m + 2)

/-- The decimal of the given grid that is nearest to the number, if it rounds to the number. -/
def onGrid? (tie : TieRule) (x : Binary64) (grid : Int) : Option Decimal :=
  let e := x.exponent - 2
  let cell := Nat.pow 10 grid.toNat * Nat.pow 2 (-e).toNat
  let quarter := Nat.pow 2 e.toNat * Nat.pow 10 (-grid).toNat
  let value := 4 * x.significand * quarter
  let (low, high) := x.quarterBounds
  let inside (k : Nat) : Bool :=
    if x.significand % 2 = 0 then low * quarter ≤ k * cell && k * cell ≤ high * quarter
    else low * quarter < k * cell && k * cell < high * quarter
  let below := value / cell
  let nearer :=
    let twice := 2 * (value % cell)
    if twice < cell then below else if cell < twice then below + 1 else tie.resolve below
  if inside below && inside (below + 1) then some ⟨nearer, grid⟩
  else if inside below then some ⟨below, grid⟩
  else if inside (below + 1) then some ⟨below + 1, grid⟩
  else none

/-- The position of the point behind the first digit of a positive number: the `k` with
`10 ^ (k - 1) ≤ x < 10 ^ k`. -/
def pointPosition (x : Binary64) : Int :=
  let (num, den) := x.magnitude
  ((digitsOf (num * Nat.pow 10 324 / den)).length : Int) - 324

/-- The first grid, counted in digits from `digits` on, that has a point which rounds to `x`. -/
def firstGrid (tie : TieRule) (x : Binary64) (point : Int) :
    (attempts : Nat) → (digits : Nat) → Decimal
  | 0, digits => ⟨x.significand, point - digits⟩
  | attempts + 1, digits =>
    match x.onGrid? tie (point - digits) with
    | some d => d
    | none => firstGrid tie x point attempts (digits + 1)

/-- The decimal with the fewest digits that rounds to the absolute value, and of those the nearest.
Seventeen digits always suffice. -/
def shortest (tie : TieRule) (x : Binary64) : Decimal :=
  if x.significand = 0 then ⟨0, 0⟩
  else (firstGrid tie x x.pointPosition 17 1).strip

/-- The text of a number in a layout. -/
def text (layout : DecimalLayout) (x : Binary64) : String :=
  String.ofList ((if x.negative then ['-'] else []) ++ layout.set (x.shortest layout.tie))

/-- What a decimal text stands for as a double-precision number. -/
inductive Reading where
  | finite (value : Binary64)
  | infinite (negative : Bool)
  | notANumber
  deriving DecidableEq

namespace Reading

private def word (text : List Char) : Option (Bool → Reading) :=
  match String.ofList (text.map Char.toLower) with
  | "inf" => some infinite
  | "infinity" => some infinite
  | "nan" => some fun _ => notANumber
  | _ => none

private def unsigned (text : List Char) : Option (Bool → Reading) :=
  match Numeral.readMagnitude text with
  | some d => some fun negative =>
    match ofDecimal? negative d with
    | some x => finite x
    | none => infinite negative
  | none => word text

/-- The reading of a text: a numeral or one of the words for infinity and not-a-number in any case,
either after an optional sign. -/
def ofText? (text : String) : Option Reading :=
  match text.toList with
  | '-' :: rest => (unsigned rest).map (· true)
  | '+' :: rest => (unsigned rest).map (· false)
  | rest => (unsigned rest).map (· false)

/-- A numeral is read as the number nearest to it. -/
theorem ofText?_of_read? {text : String} {n : Numeral} {x : Binary64}
    (read : Numeral.read? text.toList = some n)
    (nearest : ofDecimal? n.negative n.magnitude = some x) : ofText? text = some (finite x) := by
  have value {digits : List Char} {negative : Bool}
      (h : (Numeral.readMagnitude digits).map (Numeral.mk negative) = some n) :
      (unsigned digits).map (fun reading => reading negative) = some (finite x) := by
    obtain ⟨d, magnitude, rfl⟩ := Option.map_eq_some_iff.1 h
    simp only [unsigned, magnitude, Option.map_some, nearest]
  unfold Numeral.read? at read
  split at read
  · next heq =>
      unfold ofText?
      rw [heq]
      exact value read
  · next heq =>
      unfold ofText?
      rw [heq]
      exact value read
  · next text minus plus =>
      unfold ofText?
      split
      · next heq => exact absurd heq (minus _)
      · next heq => exact absurd heq (plus _)
      · exact value read

/-- The order of two readings; not-a-number has no order to anything. -/
def compare? : Reading → Reading → Option Ordering
  | notANumber, _ => none
  | _, notANumber => none
  | finite x, finite y => some (compare x.units y.units)
  | infinite x, infinite y => some (compare y.toNat x.toNat)
  | infinite x, finite _ => some (if x then .lt else .gt)
  | finite _, infinite y => some (if y then .gt else .lt)

end Reading

end Binary64

end DocumentTable
