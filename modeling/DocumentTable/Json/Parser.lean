import DocumentTable.Json.Reader

/-!
# Reading documents

## Main definitions

* `Json.reader`: the reader of a value of bounded depth
* `Json.parse`: the value of a whole text
-/

namespace DocumentTable.Json

/-- The number of containers that may be open at the same time. -/
def depthLimit : Nat := 127

/-- The reader of a value, where `inner` reads the values inside a container. -/
def readerOver (inner : Option (Reader Json)) : Reader Json := do
  match ← Reader.requireToken .endInValue with
  | 0x6E => Reader.wordNull; return null
  | 0x74 => Reader.wordTrue; return bool true
  | 0x66 => Reader.wordFalse; return bool false
  | 0x22 => return string (← Reader.readString)
  | 0x5B => return array (← Reader.array inner)
  | 0x7B =>
    let member (inner : Reader Json) (key : String) (members : Document) : Reader Document := do
      Reader.colon
      return Dict.insert key (← inner) members
    return object (← Reader.object "any value" [] (inner.map member))
  | b =>
    if b = 0x2D || Reader.isDigit b then return number (← Reader.readNumber)
    else Reader.fault .expectedValue

/-- The reader of a value that nests containers at most `depth` deep. A repeated key of an object
keeps its last value. -/
def reader : (depth : Nat) → Reader Json
  | 0 => readerOver none
  | depth + 1 => readerOver (some (reader depth))

/-- The value of a text in bytes. -/
def parseBytes (bytes : List UInt8) : Except ReadError Json :=
  Reader.run (reader depthLimit) bytes

/-- The value of a text. -/
def parse (text : String) : Except ReadError Json :=
  parseBytes (bytesOf text)

end DocumentTable.Json
