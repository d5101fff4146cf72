import DocumentTable.Proofs.NumberText

/-!
# Values as they are written

A value has many texts. Blanks stand between its tokens, a character of a string literal stands for
itself or is escaped, a number has zeros that do not count, and an object may have a name twice. A
source is a value with all of this kept, so that it has one text only.

## Main definitions

* `Json.Literal`: a string literal, unit by unit
* `Json.Literal.text?`: the text that a string literal stands for
* `Json.NumberLiteral`: a number as it is written
* `Json.Source`: a value as it is written
* `Json.Source.bytes`: the text of a source
* `Json.Ends`: what may follow a value, blanks included

## Main results

* `Json.Source.exists_bytes_eq_cons`: the kind of a source is known from the first byte of its text

## Design notes

The parts of a source carry the proofs that they are well formed, so that every source is one. A
string literal need not stand for a text: its escapes may name halves of characters, and its bytes
need not be those of a text.
-/

namespace DocumentTable

namespace Json

/-- Blanks between tokens. -/
structure Blanks where
  bytes : List UInt8
  all : ∀ b ∈ bytes, Reader.isBlank b = true

instance : EmptyCollection Blanks := ⟨⟨[], nofun⟩⟩

/-! ### String literals -/

/-- A hexadecimal digit. Those above nine are letters of either case. -/
structure HexDigit where
  value : Fin 16
  upper : Bool

/-- The byte of a hexadecimal digit. -/
def HexDigit.byte (d : HexDigit) : UInt8 :=
  if d.value < 10 then 0x30 + UInt8.ofNat d.value
  else (if d.upper then 0x41 else 0x61) + UInt8.ofNat (d.value - 10)

/-- A digit is read as its number, in upper and in lower case. -/
theorem HexDigit.hexValue?_byte (d : HexDigit) : Reader.hexValue? d.byte = some d.value.val := by
  have all : ∀ (value : Fin 16) (upper : Bool),
      Reader.hexValue? (byte ⟨value, upper⟩) = some value.val := by
    decide
  exact all d.value d.upper

/-- Four hexadecimal digits. -/
structure HexCode where
  a : HexDigit
  b : HexDigit
  c : HexDigit
  d : HexDigit

namespace HexCode

/-- The bytes of four digits. -/
def bytes (code : HexCode) : List UInt8 :=
  [code.a.byte, code.b.byte, code.c.byte, code.d.byte]

/-- The number of four digits. -/
def value (code : HexCode) : Nat :=
  ((code.a.value * 16 + code.b.value) * 16 + code.c.value) * 16 + code.d.value

/-- Whether a number is that of the first half of a character. -/
def IsLeading (code : HexCode) : Prop :=
  0xD800 ≤ code.value ∧ code.value < 0xDC00

/-- Whether a number is that of the second half of a character. -/
def IsTrailing (code : HexCode) : Prop :=
  0xDC00 ≤ code.value ∧ code.value < 0xE000

instance (code : HexCode) : Decidable code.IsLeading :=
  inferInstanceAs (Decidable (_ ∧ _))

instance (code : HexCode) : Decidable code.IsTrailing :=
  inferInstanceAs (Decidable (_ ∧ _))

/-- The number of the character that two halves make up. -/
def join (leading trailing : HexCode) : Nat :=
  (leading.value - 0xD800) * 0x400 + (trailing.value - 0xDC00) + 0x10000

end HexCode

/-- A character that has an escape of one letter. -/
inductive ShortEscape where
  | quote
  | backslash
  | slash
  | backspace
  | formFeed
  | newline
  | carriageReturn
  | tab

namespace ShortEscape

/-- The letter of an escape. -/
def letter : ShortEscape → UInt8
  | quote => 0x22
  | backslash => 0x5C
  | slash => 0x2F
  | backspace => 0x62
  | formFeed => 0x66
  | newline => 0x6E
  | carriageReturn => 0x72
  | tab => 0x74

/-- The character that an escape stands for. -/
def byte : ShortEscape → UInt8
  | quote => 0x22
  | backslash => 0x5C
  | slash => 0x2F
  | backspace => 0x08
  | formFeed => 0x0C
  | newline => 0x0A
  | carriageReturn => 0x0D
  | tab => 0x09

theorem shortEscape?_letter (escape : ShortEscape) :
    Reader.shortEscape? escape.letter = some escape.byte := by
  cases escape <;> rfl

theorem letter_ne (escape : ShortEscape) : escape.letter ≠ 0x75 := by
  cases escape <;> decide

end ShortEscape

/-- Whether a byte stands for itself in a string literal: it is no control character, no quote and
no backslash. -/
def IsPlain (b : UInt8) : Prop :=
  0x20 ≤ b ∧ b ≠ 0x22 ∧ b ≠ 0x5C

instance (b : UInt8) : Decidable (IsPlain b) :=
  inferInstanceAs (Decidable (_ ∧ _))

/-- One unit of a string literal: a byte that stands for itself, or an escape. -/
inductive LiteralUnit where
  | plain (byte : UInt8) (isPlain : IsPlain byte)
  | short (escape : ShortEscape)
  | numeric (code : HexCode)

/-- The bytes of a unit. -/
def LiteralUnit.bytes : LiteralUnit → List UInt8
  | plain byte _ => [byte]
  | short escape => [0x5C, escape.letter]
  | numeric code => 0x5C :: 0x75 :: code.bytes

/-- A string literal between its quotes. -/
abbrev Literal := List LiteralUnit

namespace Literal

/-- The bytes of a string literal behind its opening quote. -/
def tailBytes (literal : Literal) : List UInt8 :=
  literal.flatMap LiteralUnit.bytes ++ [0x22]

/-- The bytes of a string literal. -/
def bytes (literal : Literal) : List UInt8 :=
  0x22 :: literal.tailBytes

/-- The literal of bytes that stand for themselves, without those that do not. -/
def ofPlain (bytes : List UInt8) : Literal :=
  bytes.filterMap fun b => if isPlain : IsPlain b then some (.plain b isPlain) else none

/-- The bytes that a string literal stands for. There are none when half of a character stands
alone. -/
def content? : Literal → Option (List UInt8)
  | [] => some []
  | .plain byte _ :: rest => (content? rest).map ([byte] ++ ·)
  | .short escape :: rest => (content? rest).map ([escape.byte] ++ ·)
  | .numeric code :: rest =>
    if code.IsLeading then
      match rest with
      | .numeric other :: rest =>
        if other.IsTrailing then (content? rest).map (Reader.charBytes (code.join other) ++ ·)
        else none
      | _ => none
    else if code.IsTrailing then none
    else (content? rest).map (Reader.charBytes code.value ++ ·)

/-- The text that a string literal stands for. -/
def text? (literal : Literal) : Option String :=
  literal.content?.bind textOf?

theorem content?_ofPlain {bytes : List UInt8} (all : ∀ b ∈ bytes, IsPlain b) :
    (ofPlain bytes).content? = some bytes := by
  induction bytes with
  | nil => rfl
  | cons b bytes ih =>
      rw [List.forall_mem_cons] at all
      have units : ofPlain (b :: bytes) = .plain b all.1 :: ofPlain bytes :=
        List.filterMap_cons_some (dif_pos all.1)
      rw [units, content?, ih all.2]
      rfl

/-- A text without quotes, backslashes and control characters stands for itself. The names of fields
are such texts. -/
theorem text?_ofPlain {s : String} (all : ∀ b ∈ bytesOf s, IsPlain b) :
    (ofPlain (bytesOf s)).text? = some s := by
  rw [text?, content?_ofPlain all, Option.bind_some, textOf?_bytesOf]

/-- An escape of one letter, one of a number, and one of two halves. -/
example : text? (ofPlain (bytesOf "a") ++ [.short .tab,
    .numeric ⟨⟨0, false⟩, ⟨0, false⟩, ⟨14, true⟩, ⟨9, false⟩⟩,
    .numeric ⟨⟨13, false⟩, ⟨8, false⟩, ⟨3, false⟩, ⟨13, true⟩⟩,
    .numeric ⟨⟨13, false⟩, ⟨14, false⟩, ⟨0, false⟩, ⟨0, true⟩⟩]) = some "a\té😀" := by
  decide +kernel

end Literal

/-! ### Numbers -/

/-- Digits, at least one of them. -/
structure Digits where
  bytes : List UInt8
  all : ∀ b ∈ bytes, Reader.isDigit b = true
  ne_nil : bytes ≠ []

/-- The power of ten of a number: a letter of either case, perhaps a sign, and digits. -/
structure Power where
  upper : Bool
  /-- The sign, if there is one, and whether it is a minus. -/
  sign : Option Bool
  digits : Digits

/-- The byte of a sign. -/
def signByte (negative : Bool) : UInt8 :=
  if negative then 0x2D else 0x2B

/-- The bytes of a power of ten behind its letter. -/
def Power.tailBytes (power : Power) : List UInt8 :=
  power.sign.toList.map signByte ++ power.digits.bytes

/-- The bytes of a power of ten. -/
def Power.bytes (power : Power) : List UInt8 :=
  (if power.upper then 0x45 else 0x65) :: power.tailBytes

/-- A number as it is written: perhaps a minus sign, digits that do not start with a zero unless
they are one, and perhaps a fraction and a power of ten. -/
structure NumberLiteral where
  negative : Bool
  whole : List UInt8
  starts : StartsNumber whole
  fraction : Option Digits
  power : Option Power

namespace NumberLiteral

/-- The bytes of the power of ten, if there is one. -/
def powerBytes (n : NumberLiteral) : List UInt8 :=
  n.power.elim [] Power.bytes

/-- The bytes of the fraction, if there is one. -/
def fractionBytes (n : NumberLiteral) : List UInt8 :=
  n.fraction.elim [] fun digits => 0x2E :: digits.bytes

/-- The bytes of a number behind its sign. -/
def unsignedBytes (n : NumberLiteral) : List UInt8 :=
  n.whole ++ (n.fractionBytes ++ n.powerBytes)

/-- The bytes of a number. -/
def bytes (n : NumberLiteral) : List UInt8 :=
  signBytes n.negative ++ n.unsignedBytes

/-- A number starts with its sign or with a digit, so that it is told from all other values. -/
theorem exists_first (n : NumberLiteral) (rest : List UInt8) :
    ∃ b tail, n.bytes ++ rest = b :: tail ∧ Reader.isBlank b = false ∧
      (b = 0x2D ∨ Reader.isDigit b = true) ∧ (n.negative = false → b ≠ 0x2D) := by
  have first := n.starts.exists_first n.negative (n.fractionBytes ++ n.powerBytes ++ rest)
  rwa [bytes, unsignedBytes, List.append_assoc, List.append_assoc, ← List.append_assoc]

end NumberLiteral

/-! ### Values -/

/-- A value between blanks. -/
structure Padded (α : Type) where
  before : Blanks
  value : α
  after : Blanks

/-- A member of an object: its name between blanks, and behind the colon its value. -/
structure Member (α : Type) where
  before : Blanks
  name : Literal
  afterName : Blanks
  item : Padded α

/-- A value as it is written. Blanks also stand behind the opening of a container, for the sake of
those that are empty. -/
inductive Source where
  | null
  | bool (b : Bool)
  | number (literal : NumberLiteral)
  | string (literal : Literal)
  | array (gap : Blanks) (items : List (Padded Source))
  | object (gap : Blanks) (members : List (Member Source))

/-- The comma before an item or a member, unless it is the first one. -/
def comma (first : Bool) : List UInt8 :=
  if first then [] else [0x2C]

theorem comma_false : comma false = [0x2C] :=
  rfl

namespace Source

mutual

/-- The text of a source. -/
def bytes : Source → List UInt8
  | null => bytesOf "null"
  | bool b => bytesOf (if b then "true" else "false")
  | number literal => literal.bytes
  | string literal => literal.bytes
  | array gap items => 0x5B :: (gap.bytes ++ (itemsBytes true items ++ [0x5D]))
  | object gap members => 0x7B :: (gap.bytes ++ (membersBytes true members ++ [0x7D]))

/-- The text of the items of an array. -/
def itemsBytes : (first : Bool) → List (Padded Source) → List UInt8
  | _, [] => []
  | first, ⟨before, value, after⟩ :: rest =>
    comma first ++ (before.bytes ++ (bytes value ++ (after.bytes ++ itemsBytes false rest)))

/-- The text of the members of an object. -/
def membersBytes : (first : Bool) → List (Member Source) → List UInt8
  | _, [] => []
  | first, ⟨before, name, afterName, ⟨beforeValue, value, after⟩⟩ :: rest =>
    comma first ++ (before.bytes ++ (name.bytes ++ (afterName.bytes ++ 0x3A ::
      (beforeValue.bytes ++ (bytes value ++ (after.bytes ++ membersBytes false rest))))))

end

/-- The text of a source starts with no blank and no bracket that closes. Its first byte tells null
and strings from all others. -/
theorem exists_bytes_eq_cons (s : Source) :
    ∃ b tail, s.bytes = b :: tail ∧ Reader.isBlank b = false ∧ b ≠ 0x5D ∧
      (b = 0x6E → s = null) ∧ (b = 0x22 → ∃ literal, s = string literal) := by
  cases s with
  | null => exact ⟨_, _, rfl, rfl, by decide, fun _ => rfl, fun quote => absurd quote (by decide)⟩
  | bool b =>
      cases b with
      | true =>
          exact ⟨_, _, rfl, rfl, by decide, fun letter => absurd letter (by decide),
            fun quote => absurd quote (by decide)⟩
      | false =>
          exact ⟨_, _, rfl, rfl, by decide, fun letter => absurd letter (by decide),
            fun quote => absurd quote (by decide)⟩
  | number literal =>
      obtain ⟨b, tail, bytes, notBlank, first, -⟩ := literal.exists_first []
      rw [List.append_nil] at bytes
      refine ⟨b, tail, bytes, notBlank, ?_, ?_, ?_⟩ <;> rintro rfl <;>
        rcases first with minus | digit
      all_goals first | exact absurd minus (by decide) | exact absurd digit (by decide)
  | string literal =>
      exact ⟨_, _, rfl, rfl, by decide, fun letter => absurd letter (by decide),
        fun _ => ⟨literal, rfl⟩⟩
  | array gap items =>
      rw [bytes]
      exact ⟨_, _, rfl, rfl, by decide, fun letter => absurd letter (by decide),
        fun quote => absurd quote (by decide)⟩
  | object gap members =>
      rw [bytes]
      exact ⟨_, _, rfl, rfl, by decide, fun letter => absurd letter (by decide),
        fun quote => absurd quote (by decide)⟩

end Source

/-- The source of a text that stands for itself. -/
def Source.plain (s : String) : Source :=
  .string (.ofPlain (bytesOf s))

/-- A member without blanks whose name stands for itself. -/
def Member.plain (name : String) (value : Source) : Member Source :=
  ⟨∅, .ofPlain (bytesOf name), ∅, ⟨∅, value, ∅⟩⟩

theorem Member.text?_plain {name : String} (all : ∀ b ∈ bytesOf name, IsPlain b) (value : Source) :
    (Member.plain name value).name.text? = some name :=
  Literal.text?_ofPlain all

/-! ### Ends of values -/

/-- What may follow a value in a text: nothing, a blank, or a byte that separates or closes. -/
def Ends (rest : List UInt8) : Prop :=
  ∀ b ∈ rest.head?, Reader.isBlank b = true ∨ b = 0x2C ∨ b = 0x5D ∨ b = 0x7D

namespace Ends

variable {rest : List UInt8}

theorem of_delimited (h : Delimited rest) : Ends rest :=
  fun b first => .inr (h b first)

/-- Blanks may stand between a value and what ends it. -/
theorem blanks (blanks : Blanks) (h : Ends rest) : Ends (blanks.bytes ++ rest) := by
  obtain ⟨bytes, all⟩ := blanks
  cases bytes with
  | nil => exact h
  | cons b bytes =>
      rintro _ ⟨⟩
      exact .inl (all b List.mem_cons_self)

theorem items (items : List (Padded Source)) (rest : List UInt8) :
    Ends (Source.itemsBytes false items ++ 0x5D :: rest) := by
  cases items with
  | nil => exact of_delimited (.bracket rest)
  | cons item items => exact of_delimited (.comma _)

theorem members (members : List (Member Source)) (rest : List UInt8) :
    Ends (Source.membersBytes false members ++ 0x7D :: rest) := by
  cases members with
  | nil => exact of_delimited (.brace rest)
  | cons member members => exact of_delimited (.comma _)

/-- No byte behind a value continues a number. A number has no end of its own, so this is what it
relies on. -/
theorem not_isDigit (h : Ends rest) : ∀ b ∈ rest.head?, Reader.isDigit b = false := by
  intro b first
  rcases h b first with blank | rfl | rfl | rfl
  · by_contra digit
    rw [not_isBlank_of_isDigit (Bool.not_eq_false _ ▸ digit)] at blank
    cases blank
  · rfl
  · rfl
  · rfl

theorem head?_ne (h : Ends rest) {b : UInt8} (notBlank : Reader.isBlank b = false)
    (continues : b ≠ 0x2C ∧ b ≠ 0x5D ∧ b ≠ 0x7D) : rest.head? ≠ some b := by
  intro first
  rcases h b first with blank | same | same | same
  · rw [notBlank] at blank
    cases blank
  · exact continues.1 same
  · exact continues.2.1 same
  · exact continues.2.2 same

end Ends

end Json

end DocumentTable
