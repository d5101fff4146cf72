import DocumentTable.Expression
import DocumentTable.Json.Basic

/-!
# Placeholders

An expression never holds a name or a value. Placeholders stand for them, and a request carries
what each placeholder stands for. One registry gives out the placeholders of all expressions of a
request.

## Main definitions

* `NamePlaceholder`, `ValuePlaceholder`: `#attr0`, `:val1`, …
* `Registry`: what has been given out, in order
* `Registry.placeName`, `Registry.placeValue`: the placeholder of a name or of a value
* `Registry.placePath`: a path with placeholders for its names
* `Allocation`: a computation that gives out placeholders and may fail

## Design notes

Names and values draw their numbers from one counter. A name that has a placeholder keeps it; each
value gets a fresh one. What was given out before a failure stays given out.
-/

namespace DocumentTable

/-- Stands for an attribute name. -/
structure NamePlaceholder where
  number : Nat
  deriving DecidableEq, Repr

/-- Stands for a value. -/
structure ValuePlaceholder where
  number : Nat
  deriving DecidableEq, Repr

/-- The text of a name placeholder. -/
def NamePlaceholder.text (p : NamePlaceholder) : String :=
  "#attr" ++ toString p.number

/-- The text of a value placeholder. -/
def ValuePlaceholder.text (p : ValuePlaceholder) : String :=
  ":val" ++ toString p.number

/-- A path with placeholders for its names. -/
abbrev PlacedPath := List (Step NamePlaceholder)

/-- The text of a placed path. -/
def PlacedPath.text (path : PlacedPath) : String :=
  stepsText NamePlaceholder.text true path

/-- The placeholders given out so far, in order. -/
structure Registry where
  names : List (NamePlaceholder × String) := []
  values : List (ValuePlaceholder × Json) := []
  /-- The number of the next placeholder. -/
  next : Nat := 0
  deriving DecidableEq, Inhabited

namespace Registry

/-- Nothing given out. -/
def empty : Registry := {}

/-- Whether nothing was given out. -/
def isEmpty (r : Registry) : Bool :=
  r.names.isEmpty && r.values.isEmpty

/-- The placeholder of a name, if it has one. -/
def placeholder? (r : Registry) (name : String) : Option NamePlaceholder :=
  (r.names.find? fun entry => entry.2 = name).map Prod.fst

/-- The value behind the text of a placeholder. -/
def value? (r : Registry) (text : String) : Option Json :=
  (r.values.find? fun entry => entry.1.text = text).map Prod.snd

/-- The names behind the texts of placeholders. -/
def nameDict (r : Registry) : Dict String :=
  Dict.ofList (r.names.map fun entry => (entry.1.text, entry.2))

/-- The values behind the texts of placeholders. -/
def valueDict (r : Registry) : Dict Json :=
  Dict.ofList (r.values.map fun entry => (entry.1.text, entry.2))

/-- The placeholder of a name, the same one each time. -/
def placeName (name : String) : StateM Registry NamePlaceholder := fun r =>
  match r.placeholder? name with
  | some p => (p, r)
  | none =>
    let p : NamePlaceholder := ⟨r.next⟩
    (p, { r with names := r.names ++ [(p, name)], next := r.next + 1 })

/-- A fresh placeholder for a value. -/
def placeValue (value : Json) : StateM Registry ValuePlaceholder := fun r =>
  let p : ValuePlaceholder := ⟨r.next⟩
  (p, { r with values := r.values ++ [(p, value)], next := r.next + 1 })

/-- A path with placeholders for its names, from the first to the last. -/
def placePath : Path → StateM Registry PlacedPath
  | [] => return []
  | .name name :: rest => do
    let p ← placeName name
    return .name p :: (← placePath rest)
  | .index position :: rest => do return .index position :: (← placePath rest)

/-- Fresh placeholders for values in order. -/
def placeValues : List Json → StateM Registry (List ValuePlaceholder)
  | [] => return []
  | value :: rest => do
    let p ← placeValue value
    return p :: (← placeValues rest)

/-- Paths with placeholders for their names, in order. -/
def placePaths : List Path → StateM Registry (List PlacedPath)
  | [] => return []
  | path :: rest => do
    let p ← placePath path
    return p :: (← placePaths rest)

end Registry

/-- A computation that gives out placeholders and may fail. The registry survives a failure. -/
abbrev Allocation := ExceptT ExpressionError (StateM Registry)

/-- The text of a projection: the paths to retrieve, in order. -/
def projectionText (paths : List PlacedPath) : String :=
  String.intercalate ", " (paths.map PlacedPath.text)

end DocumentTable
