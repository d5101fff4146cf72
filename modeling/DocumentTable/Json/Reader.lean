import DocumentTable.Json.ReadError

/-!
# Reading text from the left

The pieces that readers of documents are made of. A reader takes bytes and gives a value and the
bytes that follow it, or the first problem that it meets.

## Main definitions

* `Reader`: a step of reading
* `Reader.readNumber`, `Reader.readString`: literals
* `Reader.nextItem`, `Reader.nextKey`: the separators of arrays and objects
* `Reader.skipValue`: passes over a value whose content does not matter
* `Reader.array`, `Reader.object`, `Reader.members`: containers
* `Reader.run`: reads a whole text

## Design notes

Containers nest to a limit. A reader of containers is given the reader of its content, or `none`
when the limit is reached. Loops over a container take as fuel the length of the remaining text,
of which each step uses at least one byte.
-/

namespace DocumentTable

/-- A step of reading: from bytes to a value and the bytes that follow it. -/
abbrev Reader := StateT (List UInt8) (Except ReadError)

namespace Reader

variable {α : Type}

/-- Stops at a fault of the notation. -/
def fault (cause : Malformed) : Reader α :=
  throw (.malformed cause)

/-- Whether a byte is a blank between tokens. -/
def isBlank (b : UInt8) : Bool :=
  b = 0x20 || b = 0x0A || b = 0x09 || b = 0x0D

/-- Whether a byte is a decimal digit. -/
def isDigit (b : UInt8) : Bool :=
  0x30 ≤ b && b ≤ 0x39

/-- The next byte that is no blank, left in place. -/
def peekToken : Reader (Option UInt8) := fun bytes =>
  let rest := bytes.dropWhile isBlank
  .ok (rest.head?, rest)

/-- The next byte, left in place. -/
def peek : Reader (Option UInt8) := fun bytes =>
  .ok (bytes.head?, bytes)

/-- Passes over one byte. -/
def advance : Reader Unit := fun bytes =>
  .ok ((), bytes.drop 1)

/-- The next byte that is no blank, left in place; the text must not end before it. -/
def requireToken (atEnd : Malformed) : Reader UInt8 := do
  match ← peekToken with
  | some b => return b
  | none => fault atEnd

/-- Passes over the bytes of a word. -/
def word : List UInt8 → Reader Unit
  | [] => return ()
  | expected :: rest => do
    match ← peek with
    | none => fault .endInValue
    | some b => if b = expected then advance; word rest else fault .expectedIdent

/-- Passes over the rest of `null`. -/
def wordNull : Reader Unit := do
  advance; word (bytesOf "ull")

/-- Passes over the rest of `true`. -/
def wordTrue : Reader Unit := do
  advance; word (bytesOf "rue")

/-- Passes over the rest of `false`. -/
def wordFalse : Reader Unit := do
  advance; word (bytesOf "alse")

/-- The longest run of digits that comes next. -/
def takeDigits : Reader (List UInt8) := fun bytes =>
  .ok (bytes.takeWhile isDigit, bytes.dropWhile isDigit)

/-- Whole digits gathered into a word of 64 bits, and how many digits found no room in it. -/
structure Significand where
  value : Nat
  dropped : Nat
  deriving Repr

namespace Significand

/-- Appends digits to a significand. From the first one that does not fit, all are dropped. -/
def append : (value : Nat) → List UInt8 → Significand
  | value, [] => ⟨value, 0⟩
  | value, digit :: rest =>
    let next := value * 10 + (digit.toNat - 0x30)
    if next < UInt64.size then append next rest else ⟨value, rest.length + 1⟩

end Significand

/-- The power of ten as a binary64 number, for exponents up to the largest finite power. -/
def powerOfTen (k : Nat) : Binary64 :=
  (Binary64.nearest? false (Nat.pow 10 k) 1).getD default

/-- Multiplies or divides a number by a power of ten, in one rounded step where the power is finite.
Larger divisors are applied in steps. -/
def scaleByTen : (steps : Nat) → Binary64 → Int → Option Binary64
  | 0, x, _ => some x
  | steps + 1, x, exponent =>
    if exponent.natAbs ≤ 308 then
      if 0 ≤ exponent then x.scaleBy? (powerOfTen exponent.natAbs)
      else x.unscaleBy? (powerOfTen exponent.natAbs)
    else if x.significand = 0 then some x
    else if 0 ≤ exponent then none
    else
      match x.unscaleBy? (powerOfTen 308) with
      | some y => scaleByTen steps y (exponent + 308)
      | none => none

/-- The binary64 number of a significand and a power of ten, in double-precision arithmetic. -/
def makeFloat (negative : Bool) (significand : Nat) (exponent : Int) : Reader Json.Number :=
  match (Binary64.ofNat? significand).bind fun x => scaleByTen 4 x exponent with
  | some x => return .float { x with negative := negative }
  | none => fault .numberOutOfRange

/-- The exponent of a number, after its letter. -/
def readExponent (negative : Bool) (significand : Nat) (start : Int) : Reader Json.Number := do
  advance
  let below ←
    match ← peek with
    | some 0x2B => advance; pure false
    | some 0x2D => advance; pure true
    | _ => pure false
  match ← peek with
  | none => fault .endInValue
  | some b =>
    if isDigit b then
      let digits ← takeDigits
      let exponent : Nat := digits.foldl (fun n d => n * 10 + (d.toNat - 0x30)) 0
      if 0x80000000 ≤ exponent then
        if significand ≠ 0 && !below then fault .numberOutOfRange
        else return .float (Binary64.zero negative)
      else
        makeFloat negative significand (start + if below then -(exponent : Int) else exponent)
    else fault .invalidNumber

/-- The fraction of a number, after its point. -/
def readFraction (negative : Bool) (significand : Nat) (start : Int) : Reader Json.Number := do
  advance
  let digits ← takeDigits
  if digits.isEmpty then
    match ← peek with
    | some _ => fault .invalidNumber
    | none => fault .endInValue
  else
    let ⟨value, dropped⟩ := Significand.append significand digits
    let exponent := start - (digits.length - dropped : Nat)
    match ← peek with
    | some 0x65 => readExponent negative value exponent
    | some 0x45 => readExponent negative value exponent
    | _ => makeFloat negative value exponent

/-- The integer of a sign and a significand, which is a floating point zero when it is minus zero,
and a floating point number when it is below the signed words. -/
def makeInteger (negative : Bool) (significand : Nat) : Reader Json.Number :=
  if negative && (significand = 0 || 0x8000000000000000 < significand) then
    makeFloat true significand 0
  else
    match Json.Number.ofInt? (if negative then -(significand : Int) else significand) with
    | some n => return n
    | none => fault .numberOutOfRange

/-- The digits of a number, after its sign. -/
def readUnsignedNumber (negative : Bool) : Reader Json.Number := do
  match ← peek with
  | none => fault .endInValue
  | some b =>
    if !isDigit b then fault .invalidNumber
    else
      let digits ← takeDigits
      if b = 0x30 && 1 < digits.length then fault .invalidNumber
      else
        let ⟨value, dropped⟩ := Significand.append 0 digits
        match ← peek with
        | some 0x2E => readFraction negative value dropped
        | some 0x65 => readExponent negative value dropped
        | some 0x45 => readExponent negative value dropped
        | _ =>
          if dropped = 0 then makeInteger negative value else makeFloat negative value dropped

/-- A number, from its sign or first digit on. -/
def readNumber : Reader Json.Number := do
  match ← peek with
  | some 0x2D => advance; readUnsignedNumber true
  | _ => readUnsignedNumber false

/-- The value of a hexadecimal digit. -/
def hexValue? (b : UInt8) : Option Nat :=
  if isDigit b then some (b.toNat - 0x30)
  else if 0x41 ≤ b && b ≤ 0x46 then some (b.toNat - 0x41 + 10)
  else if 0x61 ≤ b && b ≤ 0x66 then some (b.toNat - 0x61 + 10)
  else none

/-- Four hexadecimal digits. -/
def readHex4 : Reader Nat := fun bytes =>
  match bytes with
  | a :: b :: c :: d :: rest =>
    match hexValue? a, hexValue? b, hexValue? c, hexValue? d with
    | some a, some b, some c, some d => .ok (((a * 16 + b) * 16 + c) * 16 + d, rest)
    | _, _, _, _ => .error (.malformed .invalidEscape)
  | _ => .error (.malformed .endInString)

/-- The next byte of a string literal, which must not end before it. -/
def requireByte : Reader UInt8 := do
  match ← peek with
  | some b => return b
  | none => fault .endInString

/-- The bytes of a character given by its number. -/
def charBytes (n : Nat) : List UInt8 :=
  bytesOf (String.singleton (Char.ofNat n))

/-- The character of a numeric escape, which may be a pair of escapes for its two halves. -/
def readNumericEscape : Reader (List UInt8) := do
  let first ← readHex4
  if 0xDC00 ≤ first && first ≤ 0xDFFF then fault .loneSurrogate
  else if first < 0xD800 || 0xDBFF < first then return charBytes first
  else if (← requireByte) ≠ 0x5C then fault .unpairedEscape
  else
    advance
    if (← requireByte) ≠ 0x75 then fault .unpairedEscape
    else
      advance
      let second ← readHex4
      if second < 0xDC00 || 0xDFFF < second then fault .loneSurrogate
      else return charBytes ((first - 0xD800) * 1024 + (second - 0xDC00) + 0x10000)

/-- The byte that a short escape stands for. -/
def shortEscape? (b : UInt8) : Option UInt8 :=
  if b = 0x22 || b = 0x5C || b = 0x2F then some b
  else if b = 0x62 then some 0x08
  else if b = 0x66 then some 0x0C
  else if b = 0x6E then some 0x0A
  else if b = 0x72 then some 0x0D
  else if b = 0x74 then some 0x09
  else none

/-- The bytes of an escape, after its backslash. -/
def readEscape : Reader (List UInt8) := do
  let b ← requireByte
  advance
  if b = 0x75 then readNumericEscape
  else
    match shortEscape? b with
    | some c => return [c]
    | none => fault .invalidEscape

/-- The bytes of a string literal up to its closing quote, where `escape` reads what follows a
backslash. -/
def stringBytes (escape : Reader (List UInt8)) : (fuel : Nat) → Reader (List UInt8)
  | 0 => fault .endInString
  | fuel + 1 => do
    let b ← requireByte
    if b = 0x22 then
      advance
      return []
    else if b = 0x5C then
      advance
      let unit ← escape
      return unit ++ (← stringBytes escape fuel)
    else if b < 0x20 then fault .controlCharacter
    else
      advance
      return b :: (← stringBytes escape fuel)

/-- The number of remaining bytes, and one more for the end of the text. -/
def remaining : Reader Nat := fun bytes =>
  .ok (bytes.length + 1, bytes)

/-- A string literal, from its opening quote on. -/
def readString : Reader String := do
  advance
  let bytes ← stringBytes readEscape (← remaining)
  match textOf? bytes with
  | some s => return s
  | none => fault .invalidCodePoint

/-- Passes over a string literal. Its escapes must be well formed but need not name characters. -/
def skipString : Reader Unit := do
  advance
  let escape : Reader (List UInt8) := do
    let b ← requireByte
    advance
    if b = 0x75 then
      let _ ← readHex4
      return []
    else if (shortEscape? b).isSome then return []
    else fault .invalidEscape
  let _ ← stringBytes escape (← remaining)

/-- Names what stands in the place of a wanted value: a scalar, which is read as a whole, or a
container, of which only the opening is looked at. -/
def found : Reader Found := do
  match ← peekToken with
  | some 0x6E => wordNull; return .null
  | some 0x74 => wordTrue; return .bool true
  | some 0x66 => wordFalse; return .bool false
  | some 0x22 => return .string (← readString)
  | some 0x5B => return .array
  | some 0x7B => return .object
  | some b =>
    if b = 0x2D || isDigit b then return .number (← readNumber)
    else fault .expectedValue
  | none => fault .expectedValue

/-- Refuses the value that comes next, which is not of the expected kind. -/
def refuse (expected : String) : Reader α := do
  throw (.invalidType (← found) expected)

/-- Whether an array goes on. The bracket that ends it is left in place. -/
def nextItem (first : Bool) : Reader Bool := do
  let b ← requireToken .endInArray
  if b = 0x5D then return false
  else if first then return true
  else if b = 0x2C then
    advance
    if (← requireToken .endInValue) = 0x5D then fault .trailingComma else return true
  else fault .expectedCommaOrBracket

/-- Passes over the bracket that ends an array. -/
def endArray : Reader Unit := do
  let b ← requireToken .endInArray
  if b = 0x5D then advance
  else if b = 0x2C then
    advance
    match ← peekToken with
    | some 0x5D => fault .trailingComma
    | _ => fault .trailingCharacters
  else fault .trailingCharacters

/-- The next key of an object, if it goes on. The brace that ends it is left in place. -/
def nextKey (first : Bool) : Reader (Option String) := do
  let b ← requireToken .endInObject
  if b = 0x7D then return none
  else if first then
    if b = 0x22 then return some (← readString) else fault .keyNotString
  else if b = 0x2C then
    advance
    let next ← requireToken .endInValue
    if next = 0x22 then return some (← readString)
    else if next = 0x7D then fault .trailingComma
    else fault .keyNotString
  else fault .expectedCommaOrBrace

/-- Passes over the colon between a key and its value. -/
def colon : Reader Unit := do
  if (← requireToken .endInObject) = 0x3A then advance else fault .expectedColon

/-- Passes over the brace that ends an object. -/
def endObject : Reader Unit := do
  let b ← requireToken .endInObject
  if b = 0x7D then advance
  else if b = 0x2C then fault .trailingComma
  else fault .trailingCharacters

/-- An opened container of a value that is passed over. -/
inductive Container where
  | array
  | object
  deriving DecidableEq, Repr

/-- Passes over the exponent of a number. -/
def skipExponent : Reader Unit := do
  advance
  match ← peek with
  | some 0x2B => advance
  | some 0x2D => advance
  | _ => pure ()
  if (← takeDigits).isEmpty then fault .invalidNumber

/-- Passes over a number, after its sign. -/
def skipNumber : Reader Unit := do
  let digits ← takeDigits
  if digits.isEmpty || (digits.head? = some 0x30 && 1 < digits.length) then fault .invalidNumber
  match ← peek with
  | some 0x2E =>
    advance
    if (← takeDigits).isEmpty then fault .invalidNumber
    match ← peek with
    | some 0x65 => skipExponent
    | some 0x45 => skipExponent
    | _ => pure ()
  | some 0x65 => skipExponent
  | some 0x45 => skipExponent
  | _ => pure ()

/-- Passes over a scalar, or over the opening of a container. -/
def skipOpening : Reader (Option Container) := do
  let b ← requireToken .endInValue
  if b = 0x6E then wordNull; return none
  else if b = 0x74 then wordTrue; return none
  else if b = 0x66 then wordFalse; return none
  else if b = 0x2D then advance; skipNumber; return none
  else if isDigit b then skipNumber; return none
  else if b = 0x22 then skipString; return none
  else if b = 0x5B then advance; return some .array
  else if b = 0x7B then advance; return some .object
  else fault .expectedValue

/-- Passes over the ends of containers up to the next value inside one, whose key is passed over
too. Gives the containers that are still open, the innermost first; none are when the value has
ended. `afterItem` says whether an item stands before this place. -/
def skipToItem : (fuel : Nat) → (afterItem : Bool) → List Container → Reader (List Container)
  | _, _, [] => return []
  | 0, _, _ => fault .endInValue
  | fuel + 1, afterItem, container :: outer => do
    let b ← requireToken (match container with | .array => .endInArray | .object => .endInObject)
    if b = 0x2C && afterItem then
      advance
      skipKey container
      return container :: outer
    else if (b = 0x5D && container = .array) || (b = 0x7D && container = .object) then
      advance
      skipToItem fuel true outer
    else if afterItem then
      fault (match container with
        | .array => .expectedCommaOrBracket
        | .object => .expectedCommaOrBrace)
    else
      skipKey container
      return container :: outer
where
  /-- Passes over the key and the colon of an object's next member. -/
  skipKey : Container → Reader Unit
    | .array => return ()
    | .object => do
      if (← requireToken .endInObject) ≠ 0x22 then fault .keyNotString
      skipString
      if (← requireToken .endInObject) ≠ 0x3A then fault .expectedColon
      advance

/-- Passes over values until the containers that enclose them are closed. -/
def skipUntilClosed : (fuel : Nat) → List Container → Reader Unit
  | 0, _ => fault .endInValue
  | fuel + 1, enclosing => do
    let (afterItem, containers) ←
      match ← skipOpening with
      | some container => pure (false, container :: enclosing)
      | none => pure (true, enclosing)
    let still ← skipToItem (← remaining) afterItem containers
    if still.isEmpty then return () else skipUntilClosed fuel still

/-- Passes over a value of any depth. -/
def skipValue : Reader Unit := do
  skipUntilClosed (← remaining) []

/-- Reads the content of a container between its opening and its end, unless the nesting limit is
reached. -/
def enclosed (body : Option (Reader α)) (finish : Reader Unit) : Reader α := do
  match body with
  | none => fault .tooDeep
  | some body =>
    advance
    let value ← body
    finish
    return value

/-- The remaining items of an array. -/
def items (item : Reader α) : (fuel : Nat) → (first : Bool) → Reader (List α)
  | 0, _ => fault .endInArray
  | fuel + 1, first => do
    if ← nextItem first then
      let value ← item
      return value :: (← items item fuel false)
    else return []

/-- An array, whose items are read by the given reader. -/
def array (item : Option (Reader α)) : Reader (List α) := do
  if (← requireToken .endInValue) = 0x5B then
    enclosed (item.map fun item => do items item (← remaining) true) endArray
  else refuse "a sequence"

/-- The remaining members of an object, with the state that each of them changes. -/
def members (member : String → α → Reader α) : (fuel : Nat) → (first : Bool) → α → Reader α
  | 0, _, _ => fault .endInObject
  | fuel + 1, first, state => do
    match ← nextKey first with
    | some key => members member fuel false (← member key state)
    | none => return state

/-- An object, with the state that its members change. -/
def object (expected : String) (start : α) (member : Option (String → α → Reader α)) :
    Reader α := do
  if (← requireToken .endInValue) = 0x7B then
    enclosed (member.map fun member => do members member (← remaining) true start) endObject
  else refuse expected

/-- Reads a whole text: a value and nothing but blanks after it. -/
def run (reader : Reader α) (bytes : List UInt8) : Except ReadError α :=
  match StateT.run reader bytes with
  | .error e => .error e
  | .ok (value, rest) =>
    if (rest.dropWhile isBlank).isEmpty then .ok value
    else .error (.malformed .trailingCharacters)

end Reader

end DocumentTable
