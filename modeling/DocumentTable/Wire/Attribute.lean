import DocumentTable.Json.Codec

/-!
# Attributes

The values that a table stores. Each one carries its type, written as a tag; numbers are text, so
that they keep every digit.

## Main definitions

* `Attribute`: a stored value
* `Attribute.tag`: the tag of its type
* `Attribute.encode`, `Attribute.decode`, `Attribute.read`: an object with the tag as its only key
* `Item`: a dictionary of attributes
-/

namespace DocumentTable

/-- A stored value. The entries of a map are in the order of their names. -/
inductive Attribute where
  | string (value : String)
  | number (text : String)
  | binary (bytes : List UInt8)
  | stringSet (values : List String)
  | numberSet (texts : List String)
  | binarySet (values : List (List UInt8))
  | bool (value : Bool)
  | null (value : Bool)
  | list (items : List Attribute)
  | map (entries : List (String × Attribute))
  deriving Inhabited

/-- The attributes of an item. -/
abbrev Item := Dict Attribute

namespace Attribute

/-- The tag of a value's type. -/
def tag : Attribute → String
  | string _ => "S"
  | number _ => "N"
  | binary _ => "B"
  | stringSet _ => "SS"
  | numberSet _ => "NS"
  | binarySet _ => "BS"
  | bool _ => "BOOL"
  | null _ => "NULL"
  | list _ => "L"
  | map _ => "M"

/-- All tags. -/
def tags : List String :=
  ["S", "N", "B", "SS", "NS", "BS", "BOOL", "NULL", "L", "M"]

/-- The text of a string. -/
def asString? : Attribute → Option String
  | string s => some s
  | _ => none

/-- The text of a number. -/
def asNumber? : Attribute → Option String
  | number n => some n
  | _ => none

/-- The entries of a map. -/
def asMap? : Attribute → Option Item
  | map entries => some entries
  | _ => none

/-- A short description: the value of a scalar or of a set of texts, the size of other
collections. -/
def describe (a : Attribute) : String :=
  let content :=
    match a with
    | string s => s
    | number n => n
    | binary b => s!"{b.length} bytes"
    | stringSet texts => quotedList texts
    | numberSet texts => quotedList texts
    | binarySet values => s!"{values.length} items"
    | bool b => toString b
    | null b => toString b
    | list items => s!"{items.length} items"
    | map entries => s!"{entries.length} keys"
  "\x7b" ++ a.tag ++ ": " ++ content ++ "\x7d"

mutual

/-- Whether two values are equal. -/
def beq : Attribute → Attribute → Bool
  | string a, string b => a == b
  | number a, number b => a == b
  | binary a, binary b => a == b
  | stringSet a, stringSet b => a == b
  | numberSet a, numberSet b => a == b
  | binarySet a, binarySet b => a == b
  | bool a, bool b => a == b
  | null a, null b => a == b
  | list a, list b => beqItems a b
  | map a, map b => beqEntries a b
  | _, _ => false

/-- Whether two lists of values are equal. -/
def beqItems : List Attribute → List Attribute → Bool
  | [], [] => true
  | a :: as, b :: bs => beq a b && beqItems as bs
  | _, _ => false

/-- Whether two lists of entries are equal. -/
def beqEntries : List (String × Attribute) → List (String × Attribute) → Bool
  | [], [] => true
  | (k, a) :: as, (l, b) :: bs => k == l && beq a b && beqEntries as bs
  | _, _ => false

end

instance : BEq Attribute := ⟨beq⟩

mutual

private theorem attribute_beq_iff : (a b : Attribute) → (beq a b = true ↔ a = b)
  | string a, b => by cases b <;> simp [beq]
  | number a, b => by cases b <;> simp [beq]
  | binary a, b => by cases b <;> simp [beq]
  | stringSet a, b => by cases b <;> simp [beq]
  | numberSet a, b => by cases b <;> simp [beq]
  | binarySet a, b => by cases b <;> simp [beq]
  | bool a, b => by cases b <;> simp [beq]
  | null a, b => by cases b <;> simp [beq]
  | list a, b => by cases b <;> simp [beq, attribute_beqItems_iff a]
  | map a, b => by cases b <;> simp [beq, attribute_beqEntries_iff a]

private theorem attribute_beqItems_iff : (a b : List Attribute) → (beqItems a b = true ↔ a = b)
  | [], b => by cases b <;> simp [beqItems]
  | a :: as, b => by cases b <;> simp [beqItems, attribute_beq_iff a, attribute_beqItems_iff as]

private theorem attribute_beqEntries_iff :
    (a b : List (String × Attribute)) → (beqEntries a b = true ↔ a = b)
  | [], b => by cases b <;> simp [beqEntries]
  | (k, a) :: as, b => by
    cases b with
    | nil => simp [beqEntries]
    | cons entry bs =>
      obtain ⟨l, b⟩ := entry
      simp [beqEntries, attribute_beq_iff a, attribute_beqEntries_iff as, and_assoc]

end

instance : LawfulBEq Attribute where
  eq_of_beq h := (attribute_beq_iff _ _).1 h
  rfl := (attribute_beq_iff _ _).2 rfl

instance : DecidableEq Attribute := fun a b =>
  decidable_of_iff (beq a b = true) (attribute_beq_iff a b)

mutual

/-- The object with the tag as its only key. -/
def encode : Attribute → Json
  | string s => .object [("S", .string s)]
  | number n => .object [("N", .string n)]
  | binary b => .object [("B", .string (Base64.encode .standard b))]
  | stringSet values => .object [("SS", .array (values.map .string))]
  | numberSet values => .object [("NS", .array (values.map .string))]
  | binarySet values =>
    .object [("BS", .array (values.map fun b => .string (Base64.encode .standard b)))]
  | bool b => .object [("BOOL", .bool b)]
  | null b => .object [("NULL", .bool b)]
  | list items => .object [("L", .array (encodeItems items))]
  | map entries => .object [("M", .object (encodeEntries entries))]

/-- The documents of a list of values. -/
def encodeItems : List Attribute → List Json
  | [] => []
  | a :: rest => encode a :: encodeItems rest

/-- The documents of a list of entries. -/
def encodeEntries : List (String × Attribute) → List (String × Json)
  | [] => []
  | (k, a) :: rest => (k, encode a) :: encodeEntries rest

end

/-- How values are named when something else is found. -/
def kind : String := "a single-key object tagged with a DynamoDB type"

/-- Binary data in base 64. -/
def decodeBinary (text : String) : Except ReadError (List UInt8) :=
  (Base64.decode .standard text).mapError .binary

mutual

/-- The value of an object with the tag as its only key. -/
def decode : Json → Except ReadError Attribute
  | .object [] => .error .noTypeTag
  | .object ((tag, payload) :: rest) => do
    let value ← decodePayload tag payload
    if rest.isEmpty then return value else throw .severalTypeTags
  | other => Codec.mismatch kind other

/-- The value of a tag and its payload. -/
def decodePayload (tag : String) (payload : Json) : Except ReadError Attribute :=
  match tag with
  | "S" => (Codec.text.decode payload).map string
  | "N" => (Codec.text.decode payload).map number
  | "B" => do return binary (← decodeBinary (← Codec.text.decode payload))
  | "SS" => (Codec.text.list.decode payload).map stringSet
  | "NS" => (Codec.text.list.decode payload).map numberSet
  | "BS" => do return binarySet (← (← Codec.text.list.decode payload).mapM decodeBinary)
  | "BOOL" => (Codec.flag.decode payload).map bool
  | "NULL" => (Codec.flag.decode payload).map null
  | "L" =>
    match payload with
    | .array items => (decodeItems items).map list
    | other => Codec.mismatch "a sequence" other
  | "M" =>
    match payload with
    | .object members => (decodeEntries members).map map
    | other => Codec.mismatch "a map" other
  | other => .error (.unknownField other tags)

/-- The values of the items of a list. -/
def decodeItems : List Json → Except ReadError (List Attribute)
  | [] => .ok []
  | item :: rest => do
    let value ← decode item
    return value :: (← decodeItems rest)

/-- The entries of a map. -/
def decodeEntries : List (String × Json) → Except ReadError (List (String × Attribute))
  | [] => .ok []
  | (key, payload) :: rest => do
    let value ← decode payload
    return (key, value) :: (← decodeEntries rest)

end

/-- Reads the payload of a tag, where `depth` containers may be opened and `nested` reads the values
inside a list or a map. -/
def readPayload (depth : Nat) (nested : Option (Reader Attribute)) (tag : String) :
    Reader Attribute := do
  let texts := (Codec.text.list.read depth)
  match tag with
  | "S" => Reader.colon; return string (← Codec.text.read depth)
  | "N" => Reader.colon; return number (← Codec.text.read depth)
  | "B" => Reader.colon; return binary (← decodeBinary (← Codec.text.read depth))
  | "SS" => Reader.colon; return stringSet (← texts)
  | "NS" => Reader.colon; return numberSet (← texts)
  | "BS" =>
    Reader.colon
    let values ← texts
    return binarySet (← (values.mapM decodeBinary : Except ReadError _))
  | "BOOL" => Reader.colon; return bool (← Codec.flag.read depth)
  | "NULL" => Reader.colon; return null (← Codec.flag.read depth)
  | "L" => Reader.colon; return list (← Reader.array nested)
  | "M" =>
    Reader.colon
    let member (nested : Reader Attribute) (key : String) (entries : Item) : Reader Item := do
      Reader.colon
      return Dict.insert key (← nested) entries
    return map (← Reader.object "a map" [] (nested.map member))
  | other => throw (.unknownField other tags)

/-- Reads the only member of a tagged object. -/
def readTagged (depth : Nat) (nested : Option (Reader Attribute)) : Reader Attribute := do
  match ← Reader.nextKey true with
  | none => throw .noTypeTag
  | some tag =>
    let value ← readPayload depth nested tag
    match ← Reader.nextKey false with
    | none => return value
    | some _ => throw .severalTypeTags

/-- Reads a tagged object, where `content` reads its only member. -/
def readOver (content : Option (Reader Attribute)) : Reader Attribute := do
  if (← Reader.requireToken .endInValue) = 0x7B then Reader.enclosed content Reader.endObject
  else Reader.refuse kind

/-- Reads a value that opens at most `depth` containers inside one another. -/
def read : (depth : Nat) → Reader Attribute
  | 0 => readOver none
  | 1 => readOver (some (readTagged 0 none))
  | depth + 2 => readOver (some (readTagged (depth + 1) (some (read depth))))

/-- The codec of values. -/
def codec : Codec Attribute where
  encode := encode
  decode := decode
  read := read

end Attribute

namespace Item

/-- The codec of items and keys. -/
def codec : Codec Item :=
  Attribute.codec.dict

end Item

end DocumentTable
