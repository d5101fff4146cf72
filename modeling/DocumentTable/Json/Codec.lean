import DocumentTable.Json.Parser
import DocumentTable.Json.Printer

/-!
# Codecs

A codec says how the values of a type are written as documents, and how they are read back from
documents and from text. Codecs of records are lists of field descriptions; one list gives all
directions.

## Main definitions

* `Codec`: writing and reading of one type
* `Codec.parse`, `Codec.print`: reading and writing as text
* `Codec.text`, `Codec.flag`, `Codec.int64`, `Codec.uint32`, `Codec.choice`: scalars
* `Codec.list`, `Codec.dict`, `Codec.nullable`: containers
* `Field`: a field of a record: its key, its codec and what its absence means
* `Fields`: the fields of a record in the order of their declaration
* `Codec.record`: a record as an object, or read from an array of its fields

## Design notes

A record is written as an object. It is read from an object with its fields in any order and other
keys passed over, or from an array of its fields in the order of their declaration.

Reading from text meets values and faults of the notation in the order in which they stand there.
Reading from a document meets the members of an object in the order of their names, and its numbers
are those of the document, which the text of a number gives only up to rounding.
-/

namespace DocumentTable

/-- How values of a type are written and read. Reading text is given the number of containers that
may still be opened. -/
structure Codec (α : Type) where
  encode : α → Json
  decode : Json → Except ReadError α
  read : (depth : Nat) → Reader α

namespace Codec

variable {α β : Type}

/-- Reads the value of a text in bytes. -/
def parseBytes (c : Codec α) (bytes : List UInt8) : Except ReadError α :=
  Reader.run (c.read Json.depthLimit) bytes

/-- Reads the value of a text. -/
def parse (c : Codec α) (text : String) : Except ReadError α :=
  c.parseBytes (bytesOf text)

/-- The text of a value. -/
def print (c : Codec α) (value : α) : String :=
  (c.encode value).compact

/-- The codec of a type that corresponds to another one. -/
def via (c : Codec α) (toInner : β → α) (ofInner : α → β) : Codec β where
  encode value := c.encode (toInner value)
  decode j := (c.decode j).map ofInner
  read depth := do return ofInner (← c.read depth)

/-- Refuses a document value that is not of the expected kind. -/
def mismatch (expected : String) (found : Json) : Except ReadError α :=
  .error (.invalidType (.ofJson found) expected)

/-- Reads a text, or refuses what is none. -/
def readText (expected : String) : Reader String := do
  if (← Reader.requireToken .endInValue) = 0x22 then Reader.readString
  else Reader.refuse expected

/-- Text. -/
def text : Codec String where
  encode := .string
  decode
    | .string s => .ok s
    | other => mismatch "a string" other
  read _ := readText "a string"

/-- A truth value. -/
def flag : Codec Bool where
  encode := .bool
  decode
    | .bool b => .ok b
    | other => mismatch "a boolean" other
  read _ := do
    match ← Reader.requireToken .endInValue with
    | 0x74 => Reader.wordTrue; return true
    | 0x66 => Reader.wordFalse; return false
    | _ => Reader.refuse "a boolean"

/-- The integer of a number that is one within bounds. -/
def integerWithin (expected : String) (low high : Int) (n : Json.Number) : Except ReadError Int :=
  match n with
  | .integer value _ =>
    if low ≤ value && value ≤ high then .ok value
    else .error (.invalidValue (.number n) expected)
  | .float _ => .error (.invalidType (.number n) expected)

/-- The integer within bounds that a document value is. -/
def decodeInteger (expected : String) (low high : Int) : Json → Except ReadError Int
  | .number n => integerWithin expected low high n
  | other => mismatch expected other

/-- Reads an integer within bounds. -/
def readInteger (expected : String) (low high : Int) : Reader Int := do
  let b ← Reader.requireToken .endInValue
  if b = 0x2D || Reader.isDigit b then integerWithin expected low high (← Reader.readNumber)
  else Reader.refuse expected

/-- An integer of 64 bits with a sign. -/
def int64 : Codec Int64 where
  encode n := Json.ofInt n.toInt
  decode j := (decodeInteger "i64" (-0x8000000000000000) 0x7FFFFFFFFFFFFFFF j).map Int64.ofInt
  read _ := do return Int64.ofInt (← readInteger "i64" (-0x8000000000000000) 0x7FFFFFFFFFFFFFFF)

/-- An integer of 32 bits without a sign. -/
def uint32 : Codec UInt32 where
  encode n := Json.ofInt n.toNat
  decode j := (decodeInteger "u32" 0 0xFFFFFFFF j).map fun n => UInt32.ofNat n.toNat
  read _ := do return UInt32.ofNat (← readInteger "u32" 0 0xFFFFFFFF).toNat

/-- The value with a given name, or the refusal of that name. -/
def lookupName (names : List (String × α)) (name : String) : Except ReadError α :=
  match names.find? fun entry => entry.1 = name with
  | some (_, value) => .ok value
  | none => .error (.unknownVariant name (names.map Prod.fst))

/-- One of a list of names. A name may also be read as the only key of an object that maps it to
null. -/
def choice (names : List (String × α)) (nameOf : α → String) : Codec α where
  encode value := .string (nameOf value)
  decode
    | .string name => lookupName names name
    | .object [(name, .null)] => lookupName names name
    | .object [(name, payload)] => do
      let _ ← lookupName names name
      mismatch "unit" payload
    | .object _ => .error (.invalidValue .object "map with a single key")
    | other => mismatch "string or map" other
  read depth := do
    match ← Reader.requireToken .endInValue with
    | 0x22 => lookupName names (← Reader.readString)
    | 0x7B =>
      if depth = 0 then Reader.fault .tooDeep
      else
        Reader.advance
        let value ← lookupName names (← readText "variant identifier")
        Reader.colon
        if (← Reader.requireToken .endInValue) = 0x6E then Reader.wordNull
        else Reader.refuse "unit"
        if (← Reader.requireToken .endInObject) = 0x7D then
          Reader.advance
          return value
        else Reader.fault .expectedValue
    | _ => Reader.fault .expectedValue

/-- A reader at the depth inside a container, unless there is none. -/
def inside (read : Nat → Reader α) : (depth : Nat) → Option (Reader α)
  | 0 => none
  | depth + 1 => some (read depth)

/-- A list, as an array. -/
def list (c : Codec α) : Codec (List α) where
  encode values := .array (values.map c.encode)
  decode
    | .array items => items.mapM c.decode
    | other => mismatch "a sequence" other
  read depth := Reader.array (inside c.read depth)

/-- A dictionary, as an object. A repeated key keeps its last value. -/
def dict (c : Codec α) : Codec (Dict α) where
  encode d := .object (d.mapValues c.encode)
  decode
    | .object members => Dict.mapValuesM c.decode members
    | other => mismatch "a map" other
  read depth :=
    let member (read : Reader α) (key : String) (d : Dict α) : Reader (Dict α) := do
      Reader.colon
      return Dict.insert key (← read) d
    Reader.object "a map" [] ((inside c.read depth).map member)

/-- A value that may be null. -/
def nullable (c : Codec α) : Codec (Option α) where
  encode
    | some value => c.encode value
    | none => .null
  decode
    | .null => .ok none
    | other => (c.decode other).map some
  read depth := do
    match ← Reader.peekToken with
    | some 0x6E => Reader.wordNull; return none
    | _ => return some (← c.read depth)

end Codec

/-- A field of a record. -/
structure Field (α : Type) where
  /-- The key that the field is written under. -/
  key : String
  codec : Codec α
  /-- Other keys that the field is read from. -/
  aliases : List String := []
  /-- The value when an object lacks the key; `none` when the field is required. -/
  ifMissing : Option α := none
  /-- The value when an array ends before the field; `none` when the array must hold it. -/
  ifCut : Option α := none
  /-- Whether a value is left out of the object. -/
  omits : α → Bool := fun _ => false

namespace Field

variable {α : Type}

/-- A field that must be present. -/
def required (key : String) (codec : Codec α) : Field α :=
  { key, codec }

/-- A field that may be missing or null, and is left out when it is unset. Arrays must hold it. -/
def optional (key : String) (codec : Codec α) : Field (Option α) :=
  { key, codec := codec.nullable, ifMissing := some none, omits := Option.isNone }

/-- An optional field that arrays may end before. -/
def optionalTail (key : String) (codec : Codec α) : Field (Option α) :=
  { optional key codec with ifCut := some none }

/-- A list that is left out when it is empty. -/
def listOrNothing (key : String) (codec : Codec α) : Field (List α) :=
  { key, codec := codec.list, ifMissing := some [], ifCut := some [], omits := List.isEmpty }

/-- A dictionary that is left out when it is empty. -/
def dictOrNothing (key : String) (codec : Codec α) : Field (Dict α) :=
  { key, codec := codec.dict, ifMissing := some [], ifCut := some [], omits := List.isEmpty }

/-- A field that has a value when it is missing, and is always written. -/
def withDefault (key : String) (codec : Codec α) (value : α) : Field α :=
  { key, codec, ifMissing := some value, ifCut := some value }

end Field

/-- The fields of a record in the order of their declaration. The values of all fields are a tuple
of type `τ`; what has been read of them so far is a tuple of type `ρ`, whose places may be empty. -/
inductive Fields : (τ ρ : Type) → Type 1 where
  | nil : Fields Unit Unit
  | cons {α τ ρ : Type} (field : Field α) (rest : Fields τ ρ) : Fields (α × τ) (Option α × ρ)

namespace Fields

/-- The number of fields. -/
def count : {τ ρ : Type} → Fields τ ρ → Nat
  | _, _, nil => 0
  | _, _, cons _ rest => rest.count + 1

/-- The members of the object that a record is written as. -/
def encode : {τ ρ : Type} → Fields τ ρ → τ → List (String × Json)
  | _, _, nil, _ => []
  | _, _, cons field rest, (value, values) =>
    if field.omits value then rest.encode values
    else (field.key, field.codec.encode value) :: rest.encode values

/-- Nothing read yet. -/
def noSlots : {τ ρ : Type} → Fields τ ρ → ρ
  | _, _, nil => ()
  | _, _, cons _ rest => (none, rest.noSlots)

/-- The reader of the value of a key, after the key, if it is the key of a field. A field is read
once only. -/
def readKey : {τ ρ : Type} → Fields τ ρ → (depth : Nat) → (key : String) → ρ → Option (Reader ρ)
  | _, _, nil, _, _, _ => none
  | _, _, cons field rest, depth, key, (slot, slots) =>
    if key = field.key || field.aliases.contains key then
      some <| do
        if slot.isSome then throw (.duplicateField field.key)
        Reader.colon
        return (some (← field.codec.read depth), slots)
    else
      (rest.readKey depth key slots).map fun reader => do return (slot, ← reader)

/-- The values of the fields after an object has ended: the first required one that is missing is an
error. -/
def finish : {τ ρ : Type} → Fields τ ρ → ρ → Except ReadError τ
  | _, _, nil, _ => .ok ()
  | _, _, cons field rest, (slot, slots) =>
    match slot.or field.ifMissing with
    | some value => do return (value, ← rest.finish slots)
    | none => .error (.missingField field.key)

/-- Sets the field whose key a member has. Members with other keys are passed over. -/
def decodeMember : {τ ρ : Type} → Fields τ ρ → (key : String) → Json → ρ → Except ReadError ρ
  | _, _, nil, _, _, slots => .ok slots
  | _, _, cons field rest, key, j, (slot, slots) =>
    if key = field.key || field.aliases.contains key then
      if slot.isSome then .error (.duplicateField field.key)
      else do return (some (← field.codec.decode j), slots)
    else do return (slot, ← rest.decodeMember key j slots)

/-- The values of the fields that are the items of an array in order. -/
def decodeItems (expected : String) :
    {τ ρ : Type} → Fields τ ρ → (position : Nat) → List Json → Except ReadError τ
  | _, _, nil, _, _ => .ok ()
  | _, _, cons field rest, position, item :: items => do
    let value ← field.codec.decode item
    return (value, ← rest.decodeItems expected (position + 1) items)
  | _, _, cons field rest, position, [] =>
    match field.ifCut with
    | some value => do return (value, ← rest.decodeItems expected (position + 1) [])
    | none => .error (.invalidLength position expected)

/-- Reads the fields in order from the items of an array. -/
def readItems (expected : String) (depth : Nat) :
    {τ ρ : Type} → Fields τ ρ → (position : Nat) → (ended : Bool) → Reader τ
  | _, _, nil, _, _ => return ()
  | _, _, cons field rest, position, ended => do
    let more ← if ended then pure false else Reader.nextItem (position = 0)
    if more then
      let value ← field.codec.read depth
      return (value, ← rest.readItems expected depth (position + 1) false)
    else
      match field.ifCut with
      | some value => return (value, ← rest.readItems expected depth (position + 1) true)
      | none => throw (.invalidLength position expected)

end Fields

namespace Codec

variable {σ τ ρ : Type}

/-- The kind of a record, as errors name it. -/
def recordKind (name : String) : String :=
  "struct " ++ name

/-- The kind of a record that is read from an array, as errors name it. -/
def recordKindWithCount (name : String) (count : Nat) : String :=
  recordKind name ++ " with " ++ toString count ++ if count = 1 then " element" else " elements"

/-- The fields of a record that a document value is. An array may hold no more than the fields. -/
def decodeFields (name : String) (fields : Fields τ ρ) : Json → Except ReadError τ
  | .array items => do
    let values ← fields.decodeItems (recordKindWithCount name fields.count) 0 items
    if fields.count < items.length then
      throw (.invalidLength items.length "fewer elements in array")
    return values
  | .object members => do
    let slots ←
      members.foldlM (fun slots (key, j) => fields.decodeMember key j slots) fields.noSlots
    fields.finish slots
  | other => mismatch (recordKind name) other

/-- Reads a member of a record's object: a field, or another key with a value that is passed
over. -/
def readMember (fields : Fields τ ρ) (depth : Nat) (key : String) (slots : ρ) :
    Reader ρ :=
  match fields.readKey depth key slots with
  | some reader => reader
  | none => do
    Reader.colon
    Reader.skipValue
    return slots

/-- Reads the fields of a record. -/
def readFields (name : String) (fields : Fields τ ρ) (depth : Nat) : Reader τ := do
  match ← Reader.requireToken .endInValue with
  | 0x5B =>
    let kind := recordKindWithCount name fields.count
    let body (depth : Nat) : Reader τ := fields.readItems kind depth 0 false
    Reader.enclosed (inside body depth) Reader.endArray
  | 0x7B =>
    let body (depth : Nat) : Reader τ := do
      let slots ←
        Reader.members (readMember fields depth) (← Reader.remaining) true fields.noSlots
      fields.finish slots
    Reader.enclosed (inside body depth) Reader.endObject
  | _ => Reader.refuse (recordKind name)

/-- A record with the given fields. -/
def record (name : String) (fields : Fields τ ρ) (toTuple : σ → τ) (ofTuple : τ → σ) : Codec σ where
  encode value := .object (Dict.ofList (fields.encode (toTuple value)))
  decode j := (decodeFields name fields j).map ofTuple
  read depth := do return ofTuple (← readFields name fields depth)

end Codec

end DocumentTable
