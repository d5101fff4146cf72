/-!
# Bytes of text

## Main definitions

* `bytesOf`, `textOf?`: the bytes of a text, and the text of well-formed bytes
* `lossyText`: the text of any bytes, with a replacement character for each ill-formed run
* `hexByte`: a byte as two hexadecimal digits

## Design notes

An ill-formed run is the longest sequence of bytes that starts a character and cannot be continued,
or else a single byte. This is the replacement practice that the Unicode standard recommends.
-/

namespace DocumentTable

/-- The bytes of a text. -/
def bytesOf (s : String) : List UInt8 :=
  s.toUTF8.data.toList

/-- The text of well-formed bytes. -/
def textOf? (bytes : List UInt8) : Option String :=
  String.fromUTF8? ⟨bytes.toArray⟩

namespace Utf8

/-- What a leading byte announces: how many bytes follow, the range of the first of them, and the
bits that the leading byte itself contributes. -/
structure Lead where
  following : Nat
  low : UInt8
  high : UInt8
  bits : Nat

/-- The announcement of a byte, unless no character starts with it. -/
def lead? (b : UInt8) : Option Lead :=
  if b < 0x80 then some ⟨0, 0x80, 0xBF, b.toNat⟩
  else if b < 0xC2 then none
  else if b < 0xE0 then some ⟨1, 0x80, 0xBF, b.toNat - 0xC0⟩
  else if b = 0xE0 then some ⟨2, 0xA0, 0xBF, 0⟩
  else if b = 0xED then some ⟨2, 0x80, 0x9F, 13⟩
  else if b < 0xF0 then some ⟨2, 0x80, 0xBF, b.toNat - 0xE0⟩
  else if b = 0xF0 then some ⟨3, 0x90, 0xBF, 0⟩
  else if b < 0xF4 then some ⟨3, 0x80, 0xBF, b.toNat - 0xF0⟩
  else if b = 0xF4 then some ⟨3, 0x80, 0x8F, 4⟩
  else none

/-- The replacement character. -/
def replacement : Char := '\ufffd'

/-- Decodes from the state after the leading byte of a character: `bits` so far, and `following`
bytes to come of which the next lies between `low` and `high`. -/
def decodeFrom : (bits following : Nat) → (low high : UInt8) → List UInt8 → List Char
  | bits, 0, _, _, [] => [Char.ofNat bits]
  | _, _ + 1, _, _, [] => [replacement]
  | bits, 0, _, _, b :: rest =>
    Char.ofNat bits ::
      match lead? b with
      | some l => decodeFrom l.bits l.following l.low l.high rest
      | none => replacement :: skip rest
  | bits, following + 1, low, high, b :: rest =>
    if low ≤ b && b ≤ high then
      decodeFrom (bits * 64 + (b.toNat - 0x80)) following 0x80 0xBF rest
    else
      replacement ::
        match lead? b with
        | some l => decodeFrom l.bits l.following l.low l.high rest
        | none => replacement :: skip rest
where
  /-- Decodes from the start of a character. -/
  skip : List UInt8 → List Char
    | [] => []
    | b :: rest =>
      match lead? b with
      | some l => decodeFrom l.bits l.following l.low l.high rest
      | none => replacement :: skip rest

/-- The characters of bytes. -/
def decode : List UInt8 → List Char :=
  decodeFrom.skip

end Utf8

/-- The text of any bytes, with a replacement character for each ill-formed run. -/
def lossyText (bytes : List UInt8) : String :=
  String.ofList (Utf8.decode bytes)

/-- A byte as two upper-case hexadecimal digits. -/
def hexByte (b : UInt8) : List Char :=
  [Nat.digitChar (b.toNat / 16), Nat.digitChar (b.toNat % 16)].map Char.toUpper

end DocumentTable
