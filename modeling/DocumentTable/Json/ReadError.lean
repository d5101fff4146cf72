import DocumentTable.Json.Basic
import DocumentTable.Text.Base64
import DocumentTable.Text.Quoted

/-!
# Why a text cannot be read

Reading stops at the first problem from the left: a fault of the notation, or a value that is not of
the wanted kind.

## Main definitions

* `Malformed`: faults of the notation
* `Found`: what stood in the place of a wanted value
* `ReadError`: all causes, with their wording in `ReadError.message`
-/

namespace DocumentTable

/-- A fault of the notation. -/
inductive Malformed where
  | endInValue
  | endInString
  | endInArray
  | endInObject
  | expectedValue
  | expectedIdent
  | expectedColon
  | expectedCommaOrBracket
  | expectedCommaOrBrace
  | keyNotString
  | trailingComma
  | trailingCharacters
  | invalidNumber
  | numberOutOfRange
  | invalidEscape
  | unpairedEscape
  | loneSurrogate
  | controlCharacter
  | invalidCodePoint
  | tooDeep
  deriving DecidableEq, Repr

/-- The wording of a fault of the notation. -/
def Malformed.message : Malformed → String
  | endInValue => "EOF while parsing a value"
  | endInString => "EOF while parsing a string"
  | endInArray => "EOF while parsing a list"
  | endInObject => "EOF while parsing an object"
  | expectedValue => "expected value"
  | expectedIdent => "expected ident"
  | expectedColon => "expected `:`"
  | expectedCommaOrBracket => "expected `,` or `]`"
  | expectedCommaOrBrace => "expected `,` or `\x7d`"
  | keyNotString => "key must be a string"
  | trailingComma => "trailing comma"
  | trailingCharacters => "trailing characters"
  | invalidNumber => "invalid number"
  | numberOutOfRange => "number out of range"
  | invalidEscape => "invalid escape"
  | unpairedEscape => "unexpected end of hex escape"
  | loneSurrogate => "lone leading surrogate in hex escape"
  | controlCharacter => "control character (\\u0000-\\u001F) found while parsing a string"
  | invalidCodePoint => "invalid unicode code point"
  | tooDeep => "recursion limit exceeded"

/-- What stood in the place of a wanted value. -/
inductive Found where
  | null
  | bool (value : Bool)
  | number (value : Json.Number)
  | string (value : String)
  | array
  | object
  deriving DecidableEq

/-- The wording of what was found. -/
def Found.describe : Found → String
  | null => "null"
  | bool true => "boolean `true`"
  | bool false => "boolean `false`"
  | number n =>
    (if n.isFloat then "floating point `" else "integer `") ++ n.text ++ "`"
  | string s => "string " ++ quoted s
  | array => "sequence"
  | object => "map"

/-- What a document value is found to be. -/
def Found.ofJson : Json → Found
  | .null => null
  | .bool b => bool b
  | .number n => number n
  | .string s => string s
  | .array _ => array
  | .object _ => object

/-- Why a text or a document cannot be read as a value of the wanted kind. -/
inductive ReadError where
  | malformed (fault : Malformed)
  | invalidType (found : Found) (expected : String)
  | invalidValue (found : Found) (expected : String)
  | invalidLength (length : Nat) (expected : String)
  | missingField (name : String)
  | duplicateField (name : String)
  | unknownField (name : String) (known : List String)
  | unknownVariant (name : String) (known : List String)
  | noTypeTag
  | severalTypeTags
  | binary (cause : Base64.DecodeError)
  deriving DecidableEq

namespace ReadError

/-- A list of alternatives. -/
def oneOf : List String → String
  | [] => "there are no fields"
  | [a] => s!"expected `{a}`"
  | [a, b] => s!"expected `{a}` or `{b}`"
  | names => "expected one of " ++ String.intercalate ", " (names.map fun name => s!"`{name}`")

/-- The wording of an error. -/
def message : ReadError → String
  | malformed fault => fault.message
  | invalidType found expected => "invalid type: " ++ found.describe ++ ", expected " ++ expected
  | invalidValue found expected => "invalid value: " ++ found.describe ++ ", expected " ++ expected
  | invalidLength length expected => s!"invalid length {length}, expected {expected}"
  | missingField name => s!"missing field `{name}`"
  | duplicateField name => s!"duplicate field `{name}`"
  | unknownField name known => s!"unknown field `{name}`, " ++ oneOf known
  | unknownVariant name known => s!"unknown variant `{name}`, " ++ oneOf known
  | noTypeTag => "attribute value has no type tag"
  | severalTypeTags => "attribute value has more than one type tag"
  | binary cause => cause.message

end ReadError

end DocumentTable
