import DocumentTable.Text.Utf8

/-!
# Base 64

Binary data as text of sixty-four symbols, in the two variants that documents use, with strict
decoding: one text for each sequence of bytes.

## Main definitions

* `Base64.Variant`: the standard symbols with padding, and the URL-safe ones without
* `Base64.encode`, `Base64.decode`
* `Base64.DecodeError`: why a text is refused, and where

## Design notes

All quadruples of symbols but the last have no padding. The last one, complete or not, decides
padding, length and unused bits, in this order.
-/

namespace DocumentTable.Base64

/-- The symbols and the padding rule. -/
inductive Variant where
  /-- `+` and `/` are the last symbols, and padding is required. -/
  | standard
  /-- `-` and `_` are the last symbols, and padding is forbidden. -/
  | urlSafe
  deriving DecidableEq, Repr

/-- Why a text is not in base 64. -/
inductive DecodeError where
  | invalidSymbol (symbol : UInt8) (offset : Nat)
  | invalidLength (length : Nat)
  | invalidLastSymbol (symbol : UInt8) (offset : Nat)
  | invalidPadding
  deriving DecidableEq, Repr

/-- The wording of a decoding error. -/
def DecodeError.message : DecodeError → String
  | .invalidSymbol symbol offset => s!"Invalid symbol {symbol.toNat}, offset {offset}."
  | .invalidLength length => s!"Invalid input length: {length}"
  | .invalidLastSymbol symbol offset => s!"Invalid last symbol {symbol.toNat}, offset {offset}."
  | .invalidPadding => "Invalid padding"

/-- The last two symbols. -/
def Variant.lastSymbols : Variant → UInt8 × UInt8
  | .standard => (0x2B, 0x2F)
  | .urlSafe => (0x2D, 0x5F)

/-- Whether the last quadruple is filled up with padding. -/
def Variant.padded : Variant → Bool
  | .standard => true
  | .urlSafe => false

/-- The padding symbol. -/
def padding : UInt8 := 0x3D

/-- The symbol of a number below sixty-four. -/
def symbol (variant : Variant) (n : Nat) : UInt8 :=
  if n < 26 then UInt8.ofNat (0x41 + n)
  else if n < 52 then UInt8.ofNat (0x61 + (n - 26))
  else if n < 62 then UInt8.ofNat (0x30 + (n - 52))
  else if n = 62 then variant.lastSymbols.1
  else variant.lastSymbols.2

/-- The number of a symbol. -/
def number? (variant : Variant) (b : UInt8) : Option Nat :=
  if 0x41 ≤ b && b ≤ 0x5A then some (b.toNat - 0x41)
  else if 0x61 ≤ b && b ≤ 0x7A then some (b.toNat - 0x61 + 26)
  else if 0x30 ≤ b && b ≤ 0x39 then some (b.toNat - 0x30 + 52)
  else if b = variant.lastSymbols.1 then some 62
  else if b = variant.lastSymbols.2 then some 63
  else none

/-- The symbols of a sequence of bytes, three bytes to four symbols. -/
def encodeBytes (variant : Variant) : List UInt8 → List UInt8
  | [] => []
  | [a] =>
    let n := a.toNat * 16
    [symbol variant (n / 64), symbol variant (n % 64)] ++
      if variant.padded then [padding, padding] else []
  | [a, b] =>
    let n := (a.toNat * 256 + b.toNat) * 4
    [symbol variant (n / 4096), symbol variant (n / 64 % 64), symbol variant (n % 64)] ++
      if variant.padded then [padding] else []
  | a :: b :: c :: rest =>
    let n := (a.toNat * 256 + b.toNat) * 256 + c.toNat
    symbol variant (n / 262144) :: symbol variant (n / 4096 % 64) ::
      symbol variant (n / 64 % 64) :: symbol variant (n % 64) :: encodeBytes variant rest

/-- The text of a sequence of bytes. -/
def encode (variant : Variant) (bytes : List UInt8) : String :=
  String.ofList ((encodeBytes variant bytes).map fun b => Char.ofNat b.toNat)

/-- The number of the symbol at an offset, or the error that names it. -/
def numberAt (variant : Variant) (offset : Nat) (b : UInt8) : Except DecodeError Nat :=
  match number? variant b with
  | some n => .ok n
  | none => .error (.invalidSymbol b offset)

/-- What has been read of the last quadruple. -/
structure Tail where
  /-- The symbols so far, as one number. -/
  value : Nat := 0
  count : Nat := 0
  lastSymbol : UInt8 := 0
  paddings : Nat := 0
  deriving Repr

/-- Reads the last quadruple: symbols, then padding from the third place on. -/
def readTail (variant : Variant) (start : Nat) : Tail → List UInt8 → Except DecodeError Tail
  | tail, [] => .ok tail
  | tail, b :: rest =>
    if b = padding then
      if tail.count + tail.paddings < 2 then
        .error (.invalidSymbol b (start + tail.count + tail.paddings))
      else readTail variant start { tail with paddings := tail.paddings + 1 } rest
    else if 0 < tail.paddings then
      .error (.invalidSymbol padding (start + tail.count))
    else do
      let n ← numberAt variant (start + tail.count) b
      readTail variant start ⟨tail.value * 64 + n, tail.count + 1, b, 0⟩ rest

/-- The bytes that the last quadruple holds: its bits in eights, none set beyond them. -/
def finishTail (variant : Variant) (start : Nat) (tail : Tail) : Except DecodeError (List UInt8) :=
  let bytes := tail.count * 6 / 8
  let unused := Nat.pow 2 (tail.count * 6 - bytes * 8)
  if tail.count < 2 then .error (.invalidLength (start + tail.count))
  else if variant.padded && (tail.count + tail.paddings) % 4 ≠ 0 then .error .invalidPadding
  else if !variant.padded && 0 < tail.paddings then .error .invalidPadding
  else if tail.value % unused ≠ 0 then
    .error (.invalidLastSymbol tail.lastSymbol (start + tail.count - 1))
  else
    let n := tail.value / unused
    .ok ((List.range bytes).map fun i => UInt8.ofNat (n / Nat.pow 256 (bytes - 1 - i) % 256))

/-- Decodes the quadruples from an offset on. -/
def decodeQuads (variant : Variant) : (offset : Nat) → List UInt8 → Except DecodeError (List UInt8)
  | _, [] => .ok []
  | offset, a :: b :: c :: d :: e :: rest => do
    let p ← numberAt variant offset a
    let q ← numberAt variant (offset + 1) b
    let r ← numberAt variant (offset + 2) c
    let s ← numberAt variant (offset + 3) d
    let n := ((p * 64 + q) * 64 + r) * 64 + s
    let following ← decodeQuads variant (offset + 4) (e :: rest)
    return UInt8.ofNat (n / 65536) :: UInt8.ofNat (n / 256 % 256) :: UInt8.ofNat (n % 256) ::
      following
  | offset, tail => do finishTail variant offset (← readTail variant offset {} tail)

/-- Decodes symbols. A single symbol beyond the last complete quadruple is looked at first, so
that a stray character at the very end is named as such. -/
def decodeBytes (variant : Variant) (symbols : List UInt8) : Except DecodeError (List UInt8) :=
  match symbols.getLast? with
  | some last =>
    if symbols.length % 4 = 1 && last ≠ padding && (number? variant last).isNone then
      .error (.invalidSymbol last (symbols.length - 1))
    else decodeQuads variant 0 symbols
  | none => .ok []

/-- Decodes a text. -/
def decode (variant : Variant) (text : String) : Except DecodeError (List UInt8) :=
  decodeBytes variant (bytesOf text)

end DocumentTable.Base64
