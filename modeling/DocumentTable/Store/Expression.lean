import DocumentTable.Text.Split
import DocumentTable.Wire.Attribute

/-!
# The expressions that a table in memory understands

A store in memory reads of the language of expressions only what tests need: whether an item is
there or not, plain values set and names removed at the top of an item, and the partition of a
query.

## Main definitions

* `holds`: whether a condition lets a write happen
* `UpdateText`: the assignments and the removals of an update
* `applyUpdate`: an item after an update
* `partitionOf`: the partition that a query reads

## Design notes

Conditions that do not start with a test of presence hold. Assignments of anything but a value
placeholder to a single name placeholder have no effect, and neither have removals of longer paths.
-/

namespace DocumentTable

namespace Store

/-- Whether a text starts with a word. -/
def startsWith (word text : String) : Bool :=
  word.toList.isPrefixOf text.toList

/-- Whether a condition lets a write happen, where the item is there or not. -/
def holds (present : Bool) : (condition : Option String) → Bool
  | none => true
  | some text =>
    if startsWith "attribute_not_exists" text then !present
    else if startsWith "attribute_exists" text then present
    else true

/-- The assignments of an update, each a target and a value, and its removals. -/
structure UpdateText where
  sets : List (String × String) := []
  removes : List String := []
  deriving DecidableEq

/-- The two sides of an assignment. -/
def readAssignment (text : List Char) : Option (String × String) :=
  (splitOnce? " = ".toList text).map fun (target, value) =>
    (String.ofList target, String.ofList value)

/-- The clauses of assignments and of removals. -/
def splitClauses (text : List Char) : List Char × Option (List Char) :=
  match splitOnce? " REMOVE ".toList text with
  | some (sets, removes) => (sets, some removes)
  | none =>
    match stripLeading? "REMOVE ".toList text with
    | some removes => ([], some removes)
    | none => (text, none)

/-- The parts of an update. -/
def UpdateText.ofText (text : String) : UpdateText :=
  let (sets, removes) := splitClauses text.toList
  let pieces := splitAll ", ".toList (dropLeading "SET ".toList sets)
  { sets := pieces.filterMap readAssignment
    removes :=
      match removes with
      | some text => (splitAll ", ".toList text).map String.ofList
      | none => [] }

/-- An item after an assignment of a value to a name. -/
def assign (names : Dict String) (values : Dict Attribute) (item : Item)
    (assignment : String × String) : Item :=
  match Dict.get? names assignment.1, Dict.get? values assignment.2 with
  | some name, some value => Dict.insert name value item
  | _, _ => item

/-- An item after the removal of a name. -/
def unset (names : Dict String) (item : Item) (target : String) : Item :=
  match Dict.get? names target with
  | some name => Dict.erase item name
  | none => item

/-- An item after an update. -/
def applyUpdate (text : String) (names : Dict String) (values : Dict Attribute) (item : Item) :
    Item :=
  let update := UpdateText.ofText text
  update.removes.foldl (unset names) (update.sets.foldl (assign names values) item)

/-- The attribute that the partition of a query is about, and its value. -/
def partitionOf (keyCondition : String) (names : Dict String) (values : Dict Attribute) :
    Option (String × Attribute) := do
  let text := keyCondition.toList
  let first := ((splitOnce? " and ".toList text).map Prod.fst).getD text
  let (target, value) ← readAssignment first
  return (← Dict.get? names target, ← Dict.get? values value)

end Store

end DocumentTable
