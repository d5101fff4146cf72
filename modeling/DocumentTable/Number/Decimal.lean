/-!
# Decimal numerals

Texts of numbers in base ten and the numbers they stand for.

## Main definitions

* `Decimal`: a coefficient and a power of ten
* `Decimal.strip`: the same value with no trailing zero in the coefficient
* `readInteger`: an optionally signed run of digits
* `readUnsigned`: a run of digits with an optional plus sign
* `Numeral.read?`: decimal text with an optional fraction and exponent
* `TieRule`: which of two neighbours a number halfway between them goes to
* `DecimalLayout`: how a decimal is set in text
-/

namespace DocumentTable

/-- An unsigned decimal number `coefficient * 10 ^ exponent`. -/
structure Decimal where
  coefficient : Nat
  exponent : Int
  deriving DecidableEq, Repr

/-- The decimal digits of a number, the most significant first. -/
def digitsOf (n : Nat) : List Char :=
  Nat.toDigits 10 n

/-- The value of one digit. -/
def digitValue (c : Char) : Nat :=
  c.toNat - '0'.toNat

/-- The value of a run of digits that continues a number read so far. -/
def digitsValue (digits : List Char) (start : Nat) : Nat :=
  digits.foldl (fun value c => 10 * value + digitValue c) start

/-- The longest run of digits at the start of a text, and what follows it. -/
def takeDigits (text : List Char) : List Char × List Char :=
  (text.takeWhile Char.isDigit, text.dropWhile Char.isDigit)

/-- The number written by a text that holds digits only, at least one of them. -/
def readDigits (text : List Char) : Option Nat :=
  if text.isEmpty then none
  else if text.all Char.isDigit then some (digitsValue text 0)
  else none

/-- The number written by digits that may follow a plus sign. -/
def readUnsigned : List Char → Option Nat
  | '+' :: digits => readDigits digits
  | digits => readDigits digits

/-- The integer written by digits that may follow a sign. -/
def readInteger : List Char → Option Int
  | '-' :: digits => (readDigits digits).map fun n => -(n : Int)
  | text => (readUnsigned text).map Int.ofNat

namespace Decimal

/-- Moves trailing zeros of the coefficient into the exponent, at most `fuel` of them. -/
def stripZeros : (fuel : Nat) → Nat → Int → Decimal
  | 0, c, e => ⟨c, e⟩
  | fuel + 1, c, e => if c ≠ 0 ∧ c % 10 = 0 then stripZeros fuel (c / 10) (e + 1) else ⟨c, e⟩

/-- The same number with no trailing zero in the coefficient. -/
def strip (d : Decimal) : Decimal :=
  stripZeros (digitsOf d.coefficient).length d.coefficient d.exponent

end Decimal

/-- Which of two neighbours a number goes to that lies halfway between them. -/
inductive TieRule where
  | toEven
  | upward
  deriving DecidableEq, Repr

/-- The neighbour of a number halfway between `below` and `below + 1`. -/
def TieRule.resolve : TieRule → (below : Nat) → Nat
  | toEven, below => below + below % 2
  | upward, below => below + 1

/-- How a decimal number is set in text. -/
structure DecimalLayout where
  /-- Which of two shortest decimals stands for a number halfway between them. -/
  tie : TieRule
  /-- The largest position of the point, counted from the first digit, that is written without an
  exponent; `none` sets no limit. -/
  largestPoint : Option Int
  /-- The smallest such position; `none` sets no limit. -/
  smallestPoint : Option Int
  /-- Whether a whole number ends in `.0`. -/
  pointAlways : Bool

namespace DecimalLayout

/-- The layout of floating point numbers in documents: no exponent for a point between the fourth
zero before the first digit and the sixteenth digit, and always a point otherwise. A tie goes to the
even digit. -/
def document : DecimalLayout := ⟨.toEven, some 16, some (-4), true⟩

/-- The layout that never uses an exponent and keeps whole numbers bare. A tie goes to the larger
digit. -/
def plain : DecimalLayout := ⟨.upward, none, none, false⟩

private def zeros (n : Nat) : List Char :=
  List.replicate n '0'

/-- Whether a point in this position is written without an exponent. -/
def positional (layout : DecimalLayout) (point : Int) : Bool :=
  (match layout.largestPoint with
    | some limit => decide (point ≤ limit)
    | none => true) &&
  (match layout.smallestPoint with
    | some limit => decide (limit ≤ point)
    | none => true)

/-- Digits with the point after the first `point` of them, padded with zeros on either side. -/
def setPoint (layout : DecimalLayout) (digits : List Char) (point : Int) : List Char :=
  if point ≤ 0 then
    '0' :: '.' :: zeros (-point).toNat ++ digits
  else if (digits.length : Int) ≤ point then
    digits ++ zeros (point.toNat - digits.length) ++ (if layout.pointAlways then ['.', '0'] else [])
  else
    digits.take point.toNat ++ '.' :: digits.drop point.toNat

/-- Digits with a point after the first and the power of ten that restores the value. -/
def setExponent (digits : List Char) (exponent : Int) : List Char :=
  let sign := if exponent < 0 then '-' else '+'
  let fraction :=
    match digits.drop 1 with
    | [] => []
    | rest => '.' :: rest
  digits.take 1 ++ fraction ++ 'e' :: sign :: digitsOf exponent.natAbs

/-- The text of a decimal number whose coefficient has no trailing zero. -/
def set (layout : DecimalLayout) (d : Decimal) : List Char :=
  if d.coefficient = 0 then
    if layout.pointAlways then ['0', '.', '0'] else ['0']
  else
    let digits := digitsOf d.coefficient
    let point := digits.length + d.exponent
    if layout.positional point then layout.setPoint digits point
    else setExponent digits (point - 1)

end DecimalLayout

/-- Decimal text taken apart: a sign, a coefficient and a power of ten. -/
structure Numeral where
  negative : Bool
  magnitude : Decimal
  deriving DecidableEq, Repr

namespace Numeral

/-- The exponent part of a numeral: nothing, or the letter `e` and an integer. -/
def readExponent : List Char → Option Int
  | [] => some 0
  | 'e' :: text => readInteger text
  | 'E' :: text => readInteger text
  | _ => none

/-- An unsigned numeral: digits, possibly a point and more digits, possibly an exponent. There is at
least one digit before or after the point. -/
def readMagnitude (text : List Char) : Option Decimal :=
  let (whole, rest) := takeDigits text
  let (fraction, rest) :=
    match rest with
    | '.' :: after => takeDigits after
    | _ => ([], rest)
  if whole.isEmpty && fraction.isEmpty then none
  else
    (readExponent rest).map fun exponent =>
      ⟨digitsValue (whole ++ fraction) 0, exponent - fraction.length⟩

/-- A numeral that may start with a sign. -/
def read? : List Char → Option Numeral
  | '-' :: text => (readMagnitude text).map (⟨true, ·⟩)
  | '+' :: text => (readMagnitude text).map (⟨false, ·⟩)
  | text => (readMagnitude text).map (⟨false, ·⟩)

/-- A numeral behind an optional minus sign. -/
theorem read?_signed {text : List Char} {d : Decimal} (read : readMagnitude text = some d)
    (negative : Bool) : read? ((if negative then ['-'] else []) ++ text) = some ⟨negative, d⟩ := by
  cases negative with
  | true =>
      show (readMagnitude text).map _ = _
      rw [read, Option.map_some]
  | false =>
      rw [if_neg Bool.false_ne_true, List.nil_append]
      -- a sign is no digit, so no magnitude starts with one
      unfold read?
      split
      · simp [readMagnitude, takeDigits] at read
      · simp [readMagnitude, takeDigits] at read
      · rw [read, Option.map_some]

end Numeral

end DocumentTable
