import DocumentTable.Text.Utf8

/-!
# Percent encoding

Bytes that must not stand in an address as they are become `%` and two hexadecimal digits. Which
ones these are depends on the part of the address.

## Main definitions

* `Percent.encode`: a text with the bytes of a set encoded
* `Percent.decode`: bytes without encodings
* `Percent.control`, `Percent.fragment`, `Percent.path`, `Percent.query`, `Percent.specialQuery`:
  the sets of each part
-/

namespace DocumentTable

namespace Percent

/-- Control characters and everything beyond ASCII. -/
def control (b : UInt8) : Bool :=
  b < 0x20 || b ≥ 0x7F

/-- What is encoded in a fragment. -/
def fragment (b : UInt8) : Bool :=
  control b || [0x20, 0x22, 0x3C, 0x3E, 0x60].contains b

/-- What is encoded in a path. -/
def path (b : UInt8) : Bool :=
  fragment b || [0x23, 0x3F, 0x7B, 0x7D].contains b

/-- What is encoded in a query. -/
def query (b : UInt8) : Bool :=
  control b || [0x20, 0x22, 0x23, 0x3C, 0x3E].contains b

/-- What is encoded in the query of an address whose scheme is special. -/
def specialQuery (b : UInt8) : Bool :=
  query b || b = 0x27

/-- A text with the bytes of a set encoded. A sign that starts an encoding stays. -/
def encode (encoded : UInt8 → Bool) (text : List Char) : List Char :=
  (bytesOf (String.ofList text)).flatMap fun b =>
    if encoded b then '%' :: hexByte b else [Char.ofNat b.toNat]

/-- The value of a hexadecimal digit. -/
def hexValue? (c : Char) : Option Nat :=
  "0123456789abcdef".toList.idxOf? c.toLower

/-- Bytes with each encoding replaced by the byte that it stands for. -/
def decode : List UInt8 → List UInt8
  | 0x25 :: a :: b :: rest =>
    match hexValue? (Char.ofNat a.toNat), hexValue? (Char.ofNat b.toNat) with
    | some high, some low => UInt8.ofNat (high * 16 + low) :: decode rest
    | _, _ => 0x25 :: decode (a :: b :: rest)
  | b :: rest => b :: decode rest
  | [] => []

end Percent

end DocumentTable
