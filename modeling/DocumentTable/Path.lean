import DocumentTable.Number.Decimal
import DocumentTable.Text.Split

/-!
# Attribute paths

A path leads from an item to a value inside it, by the names of attributes and the positions of list
items.

## Main definitions

* `Step`, `Path`: one step of a path, and the steps in order
* `Path.text`: the text of a path, such as `child.tags[0]`
* `Path.parse`: the path of a text, or why there is none
* `Path.ofText`: the path of a text, which is taken for a single name when it does not parse
-/

namespace DocumentTable

/-- A step into an item. The type of names is a parameter, since an expression writes placeholders
in their place. -/
inductive Step (ν : Type) where
  | name (name : ν)
  | index (position : UInt64)
  deriving DecidableEq

/-- Steps that lead to a value. -/
abbrev Path := List (Step String)

/-- Why a text is no path. -/
inductive PathFault where
  | emptyName
  | unclosedIndex
  | badIndex
  | trailingCharacters
  deriving DecidableEq, Repr

/-- The wording of a fault in a path. -/
def PathFault.message : PathFault → String
  | emptyName => "empty attribute name"
  | unclosedIndex => "unclosed list index"
  | badIndex => "list index is not a non-negative integer"
  | trailingCharacters => "unexpected characters after list index"

/-- The text of a step, where names after the first step follow a dot. -/
def Step.text {ν : Type} (nameText : ν → String) (first : Bool) : Step ν → String
  | name n => if first then nameText n else "." ++ nameText n
  | index i => "[" ++ toString i.toNat ++ "]"

/-- The text of steps. -/
def stepsText {ν : Type} (nameText : ν → String) : (first : Bool) → List (Step ν) → String
  | _, [] => ""
  | first, step :: rest => step.text nameText first ++ stepsText nameText false rest

namespace Path

/-- The path of a single name, which is taken as it stands. -/
def ofName (name : String) : Path :=
  [.name name]

/-- The path extended by a name. -/
def child (path : Path) (name : String) : Path :=
  path ++ [.name name]

/-- The text of a path. -/
def text (path : Path) : String :=
  stepsText id true path

/-- The position written by the digits of an index. -/
def readPosition (text : List Char) : Option UInt64 :=
  (readUnsigned text).bind fun n => if n < UInt64.size then some (UInt64.ofNat n) else none

/-- The indexes that follow a name, each between brackets. -/
def readIndexes : (fuel : Nat) → List Char → Except PathFault Path
  | _, [] => .ok []
  | 0, _ => .error .unclosedIndex
  | fuel + 1, text =>
    match splitOnce? [']'] text with
    | none => .error .unclosedIndex
    | some (opened, rest) =>
      match readPosition (opened.drop 1) with
      | none => .error .badIndex
      | some position =>
        if rest.head?.all (· = '[') then
          (readIndexes fuel rest).map (.index position :: ·)
        else .error .trailingCharacters

/-- The steps of a segment between dots: a name and indexes. -/
def readSegment (segment : List Char) : Except PathFault Path :=
  let name := segment.takeWhile (· ≠ '[')
  let rest := segment.dropWhile (· ≠ '[')
  if name.isEmpty then .error .emptyName
  else (readIndexes rest.length rest).map (.name (String.ofList name) :: ·)

/-- The steps of segments. The first one at fault decides. -/
def readSegments : List (List Char) → Except PathFault Path
  | [] => .ok []
  | segment :: rest =>
    match readSegment segment with
    | .error fault => .error fault
    | .ok steps => (readSegments rest).map (steps ++ ·)

/-- The path of a text. -/
def parse (text : String) : Except PathFault Path :=
  readSegments (splitAll ['.'] text.toList)

/-- The path of a text, which is taken for a single name when it does not parse. -/
def ofText (text : String) : Path :=
  match parse text with
  | .ok path => path
  | .error _ => ofName text

end Path

end DocumentTable
