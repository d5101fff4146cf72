import DocumentTable.Text.Percent
import DocumentTable.Text.Punycode
import DocumentTable.Text.Split

/-!
# Hosts

The host of an address: a name, or a number that leads to it.

## Main definitions

* `Host`: a name, or an address of 32 or of 128 bits
* `Host.text`: its text
* `Host.ofText?`: the host of a text under a special scheme
* `Host.ofOpaqueText?`: the host of a text under any other scheme
* `Host.isPostable`: whether messages can be posted to it

## Design notes

Names are in lower case and in ASCII. Letters of a name beyond ASCII are taken to be in lower case
and composed, and parts that are in their ASCII form already to have been made so. A name that ends
in a number is an address of 32 bits, or none at all.
-/

namespace DocumentTable

/-- The host of an address. -/
inductive Host where
  | name (name : String)
  | short (address : UInt32)
  /-- An address in eight pieces. -/
  | long (pieces : List UInt16)
  deriving DecidableEq

namespace Host

/-- A number in base 16. -/
def hexText (n : Nat) : String :=
  String.ofList (Nat.toDigits 16 n)

/-- The first of the longest runs of zeros: where it starts and its length. -/
def longestZeros (pieces : List UInt16) : Nat × Nat :=
  (List.range pieces.length).foldl
    (fun best start =>
      let length := ((pieces.drop start).takeWhile (· = 0)).length
      if best.2 < length then (start, length) else best)
    (0, 0)

/-- Pieces in base 16 between colons. -/
def piecesText (pieces : List UInt16) : String :=
  String.intercalate ":" (pieces.map fun piece => hexText piece.toNat)

/-- The text of a host. The longest run of zeros among the pieces of an address is left out. -/
def text : Host → String
  | name n => n
  | short a =>
    String.intercalate "." <|
      [24, 16, 8, 0].map fun shift => toString (a.toNat / Nat.pow 2 shift % 256)
  | long pieces =>
    let (start, length) := longestZeros pieces
    let inner :=
      if length < 2 then piecesText pieces
      else piecesText (pieces.take start) ++ "::" ++ piecesText (pieces.drop (start + length))
    "[" ++ inner ++ "]"

/-- The number that digits of a base stand for. -/
def readBase? (base : Nat) (digits : List Char) : Option Nat :=
  digits.foldlM
    (fun n c => ((Percent.hexValue? c).filter (· < base)).map (n * base + ·)) 0

/-- The number of a part of an address, in base 16 after `0x` and in base 8 after `0`. -/
def readPart? : List Char → Option Nat
  | [] => none
  | '0' :: 'x' :: digits => readBase? 16 digits
  | '0' :: 'X' :: digits => readBase? 16 digits
  | '0' :: digit :: digits => readBase? 8 (digit :: digits)
  | digits => readBase? 10 digits

/-- The parts of a name between dots, without an empty one at the end. -/
def parts (name : List Char) : List (List Char) :=
  let all := splitAll ['.'] name
  if 1 < all.length && all.getLast? = some [] then all.dropLast else all

/-- Whether a name ends in a number. -/
def endsInNumber (name : List Char) : Bool :=
  match (parts name).getLast? with
  | none => false
  | some last => !last.isEmpty && (last.all Char.isDigit || (readPart? last).isSome)

/-- The address whose parts a name holds. The last part fills what the others leave. -/
def ofParts? (name : List Char) : Option Host := do
  let numbers ← (parts name).mapM readPart?
  let last ← numbers.getLast?
  let others := numbers.dropLast
  if others.length < 4 && others.all (· < 256) && last < Nat.pow 256 (4 - others.length) then
    let high := others.foldl (fun n part => n * 256 + part) 0
    return .short (.ofNat (high * Nat.pow 256 (4 - others.length) + last))
  else none

/-- Whether a character cannot be part of a host. -/
def isForbidden (c : Char) : Bool :=
  "\x00\t\n\r #/:<>?@[\\]^|".toList.contains c

/-- Whether a character cannot be part of a name under a special scheme. -/
def isForbiddenInName (c : Char) : Bool :=
  c ≤ ' ' || c = '\x7f' || c = '%' || isForbidden c

/-- What marks the ASCII form of a part of a name. -/
def asciiMark : List Char :=
  "xn--".toList

/-- A part of a name in lower case and in ASCII. What follows the mark of the ASCII form is not
empty and in ASCII already. -/
def asciiPart? (part : List Char) : Option (List Char) :=
  let lower := part.map Char.toLower
  let isAscii := lower.all fun c => c.toNat < 0x80
  if asciiMark.isPrefixOf lower && (lower = asciiMark || !isAscii) then none
  else some (if isAscii then lower else asciiMark ++ Punycode.encode lower)

/-- The host of a name in which bytes may be percent-encoded. -/
def ofName? (text : List Char) : Option Host := do
  let decoded ← textOf? (Percent.decode (bytesOf (String.ofList text)))
  let name := ['.'].intercalate (← (splitAll ['.'] decoded.toList).mapM asciiPart?)
  if name.isEmpty || name.any isForbiddenInName then none
  else if endsInNumber name then ofParts? name
  else return .name (String.ofList name)

/-- The two pieces of four decimal numbers between dots. -/
def readDotted? (text : List Char) : Option (List UInt16) := do
  let octet (digits : List Char) : Option Nat :=
    if 1 < digits.length && digits.head? = some '0' then none
    else if digits.isEmpty then none
    else (readBase? 10 digits).filter (· < 256)
  match ← (splitAll ['.'] text).mapM octet with
  | [a, b, c, d] => return [.ofNat (a * 256 + b), .ofNat (c * 256 + d)]
  | _ => none

/-- The pieces between colons, the last of which may be four decimal numbers. -/
def readPieces? : List (List Char) → Option (List UInt16)
  | [] => some []
  | piece :: rest => do
    if rest.isEmpty && piece.contains '.' then readDotted? piece
    else if piece.isEmpty || 4 < piece.length then none
    else return .ofNat (← readBase? 16 piece) :: (← readPieces? rest)

/-- The address of a text in base 16, where a double colon stands for zeros. -/
def ofPieces? (text : List Char) : Option Host := do
  let pieces (text : List Char) : Option (List UInt16) :=
    if text.isEmpty then some [] else readPieces? (splitAll [':'] text)
  match splitOnce? "::".toList text with
  | none =>
    let all ← pieces text
    if all.length = 8 then return .long all else none
  | some (before, after) =>
    let high ← if before.contains '.' then none else pieces before
    let low ← pieces after
    if high.length + low.length < 8 then
      return .long (high ++ List.replicate (8 - high.length - low.length) 0 ++ low)
    else none

/-- The address of a text between brackets. -/
def ofBrackets? (inner : List Char) : Option Host :=
  if inner.getLast? = some ']' then ofPieces? inner.dropLast else none

/-- The host of a text under a special scheme. -/
def ofText? : List Char → Option Host
  | '[' :: inner => ofBrackets? inner
  | text => ofName? text

/-- The host of a text under a scheme that is not special, which may be empty. -/
def ofOpaqueText? : List Char → Option Host
  | '[' :: inner => ofBrackets? inner
  | text =>
    if text.any isForbidden then none
    else some (.name (String.ofList (Percent.encode Percent.control text)))

/-- Whether messages can be posted to a host. Some marks that a name may hold cannot be part of one
on the wire. -/
def isPostable : Host → Bool
  | name n => !n.toList.any fun c => c = '"' || c = '`' || c = '\x7b' || c = '\x7d'
  | _ => true

end Host

end DocumentTable
