import DocumentTable.Json.Codec
import DocumentTable.Wire.Attribute

/-!
# Marshalling

Documents become attributes on their way to the service, and attributes become documents on their
way back.

## Main definitions

* `Marshaller`: how values are encoded and decoded
* `Marshaller.json`: the default, which has a type of attribute for each kind of value
* `Marshaller.withoutFloats`: the same, refusing floating point numbers
* `FromDocument`: types that are read from documents

## Design notes

Encoding and decoding stop at the first value that fails. Sets become arrays and binary data becomes
text in base 64, and neither comes back.
-/

namespace DocumentTable

/-- Why a value has no counterpart. -/
inductive MarshalError where
  /-- An item or a key is not an object. -/
  | notAnObject (kind : String)
  /-- A number is not the text of one, or is refused. -/
  | invalidNumber (text : String)
  /-- A token is not that of a cursor. -/
  | invalidCursor (reason : String)
  deriving DecidableEq

/-- The wording of an error. -/
def MarshalError.message : MarshalError → String
  | notAnObject kind => "Expected an object, found " ++ kind
  | invalidNumber text => s!"Invalid number `{text}`"
  | invalidCursor reason => "Invalid cursor token: " ++ reason

/-- How values become attributes and attributes become values. -/
structure Marshaller where
  encode : Json → Except MarshalError Attribute
  decode : Attribute → Except MarshalError Json

namespace Marshaller

/-- The attributes of a document. -/
def encodeItem (m : Marshaller) (document : Document) : Except MarshalError Item :=
  Dict.mapValuesM m.encode document

/-- The document of attributes. -/
def decodeItem (m : Marshaller) (item : Item) : Except MarshalError Document :=
  Dict.mapValuesM m.decode item

mutual

/-- The attribute of a value, whose type is that of the value's kind. -/
def encodeJson : Json → Attribute
  | .null => .null true
  | .bool b => .bool b
  | .number n => .number n.text
  | .string s => .string s
  | .array items => .list (encodeItems items)
  | .object members => .map (encodeMembers members)

/-- The attributes of values. -/
def encodeItems : List Json → List Attribute
  | [] => []
  | value :: rest => encodeJson value :: encodeItems rest

/-- The attributes of members. -/
def encodeMembers : List (String × Json) → List (String × Attribute)
  | [] => []
  | (key, value) :: rest => (key, encodeJson value) :: encodeMembers rest

end

/-- The number that a text stands for. -/
def decodeNumber (text : String) : Except MarshalError Json :=
  match Json.Number.ofText? text with
  | some n => .ok (.number n)
  | none => .error (.invalidNumber text)

/-- The numbers that texts stand for. -/
def decodeNumbers : List String → Except MarshalError (List Json)
  | [] => .ok []
  | text :: rest => do
    let n ← decodeNumber text
    return n :: (← decodeNumbers rest)

mutual

/-- The value of an attribute. -/
def decodeJson : Attribute → Except MarshalError Json
  | .string s => .ok (.string s)
  | .number text => decodeNumber text
  | .binary bytes => .ok (.string (Base64.encode .standard bytes))
  | .stringSet values => .ok (.array (values.map .string))
  | .numberSet texts => (decodeNumbers texts).map .array
  | .binarySet values => .ok (.array (values.map fun b => .string (Base64.encode .standard b)))
  | .bool b => .ok (.bool b)
  | .null _ => .ok .null
  | .list items => (decodeItems items).map .array
  | .map entries => (decodeEntries entries).map .object

/-- The values of attributes. -/
def decodeItems : List Attribute → Except MarshalError (List Json)
  | [] => .ok []
  | a :: rest => do
    let value ← decodeJson a
    return value :: (← decodeItems rest)

/-- The values of entries. -/
def decodeEntries : List (String × Attribute) → Except MarshalError (List (String × Json))
  | [] => .ok []
  | (key, a) :: rest => do
    let value ← decodeJson a
    return (key, value) :: (← decodeEntries rest)

end

/-- The default marshaller: one type of attribute for each kind of value. -/
def json : Marshaller where
  encode value := .ok (encodeJson value)
  decode := decodeJson

mutual

/-- The first floating point number inside a value. -/
def firstFloat? : Json → Option Json.Number
  | .number n => if n.isFloat then some n else none
  | .array items => firstFloatOfItems? items
  | .object members => firstFloatOfMembers? members
  | _ => none

/-- The first floating point number inside values. -/
def firstFloatOfItems? : List Json → Option Json.Number
  | [] => none
  | value :: rest => (firstFloat? value).or (firstFloatOfItems? rest)

/-- The first floating point number inside members. -/
def firstFloatOfMembers? : List (String × Json) → Option Json.Number
  | [] => none
  | (_, value) :: rest => (firstFloat? value).or (firstFloatOfMembers? rest)

end

/-- A marshaller for exact numbers only: it refuses values that hold a floating point number. -/
def withoutFloats : Marshaller where
  encode value :=
    match firstFloat? value with
    | some n => .error (.invalidNumber n.text)
    | none => .ok (encodeJson value)
  decode := decodeJson

end Marshaller

/-- The document of a value, which must be an object. -/
def Document.ofJson : Json → Except MarshalError Document
  | .object members => .ok members
  | other => .error (.notAnObject other.kind)

/-- Types that are read from documents. -/
class FromDocument (α : Type) where
  read : Document → Except ReadError α

/-- Records are read from a document as their codec reads it. -/
@[reducible] def FromDocument.ofCodec {α : Type} (codec : Codec α) : FromDocument α where
  read document := codec.decode (.object document)

instance : FromDocument Json where
  read document := .ok (.object document)

end DocumentTable
