import DocumentTable.Placeholder
import DocumentTable.Update.Basic

/-!
# Update clauses

The expressions that the service reads as updates, with placeholders for names and values.

## Main definitions

* `AssignedValue`: what an attribute is set to
* `Assignment`: an attribute and what it is set to
* `UpdateClauses`, `PlacedUpdate`: all assignments and all removals of an update, and those with
  placeholders
* `UpdateTree.walk`: the clauses of a tree
* `UpdateTree.compile`: the clauses of a tree that changes something

## Design notes

Assignments and removals are gathered from first to last, the attributes inside an attribute in its
place. All assignments are written before all removals.
-/

namespace DocumentTable

/-- What is assigned, or added to or subtracted from. -/
inductive Operand (ν β : Type) where
  | path (path : List (Step ν))
  | fallback (path : List (Step ν)) (value : β)
  | value (value : β)
  deriving DecidableEq

/-- The text of an operand. -/
def Operand.text : Operand NamePlaceholder ValuePlaceholder → String
  | path p => PlacedPath.text p
  | fallback p v => "if_not_exists(" ++ PlacedPath.text p ++ ", " ++ v.text ++ ")"
  | value v => v.text

/-- What an attribute is set to. -/
inductive AssignedValue (ν β : Type) where
  | operand (operand : Operand ν β)
  | arithmetic (left : Operand ν β) (op : ArithmeticOp) (right : Operand ν β)
  deriving DecidableEq

/-- The text of what an attribute is set to. -/
def AssignedValue.text : AssignedValue NamePlaceholder ValuePlaceholder → String
  | operand o => o.text
  | arithmetic left op right => left.text ++ " " ++ op.text ++ " " ++ right.text

/-- An attribute and what it is set to. -/
structure Assignment (ν β : Type) where
  target : List (Step ν)
  value : AssignedValue ν β
  deriving DecidableEq

/-- The text of an assignment. -/
def Assignment.text (a : Assignment NamePlaceholder ValuePlaceholder) : String :=
  PlacedPath.text a.target ++ " = " ++ a.value.text

/-- The assignments and the removals of an update. -/
structure UpdateClauses (ν β : Type) where
  sets : List (Assignment ν β) := []
  removes : List (List (Step ν)) := []
  deriving DecidableEq

/-- The assignments and the removals of an update with placeholders for names and values. -/
abbrev PlacedUpdate := UpdateClauses NamePlaceholder ValuePlaceholder

namespace UpdateClauses

variable {ν β : Type}

/-- The clauses of one update followed by those of another. -/
def append (a b : UpdateClauses ν β) : UpdateClauses ν β :=
  ⟨a.sets ++ b.sets, a.removes ++ b.removes⟩

/-- Whether nothing changes. -/
def isEmpty (u : UpdateClauses ν β) : Bool :=
  u.sets.isEmpty && u.removes.isEmpty

/-- The text of an update: one clause of assignments, one of removals, neither when it is empty. -/
def text (u : PlacedUpdate) : String :=
  let sets :=
    if u.sets.isEmpty then []
    else ["SET " ++ String.intercalate ", " (u.sets.map Assignment.text)]
  let removes :=
    if u.removes.isEmpty then []
    else ["REMOVE " ++ String.intercalate ", " (u.removes.map PlacedPath.text)]
  String.intercalate " " (sets ++ removes)

end UpdateClauses

/-- The operand of a fallback. -/
def Fallback.place (f : Fallback) : StateM Registry (Operand NamePlaceholder ValuePlaceholder) := do
  let path ← Registry.placePath f.path
  let value ← Registry.placeValue f.value
  return .fallback path value

/-- The value of a sum or a difference. -/
def Arithmetic.place (a : Arithmetic) :
    StateM Registry (AssignedValue NamePlaceholder ValuePlaceholder) := do
  let left ←
    match a.left with
    | .path path => do pure (.path (← Registry.placePath path))
    | .fallback fallback => fallback.place
  let right ←
    match a.right with
    | .value value => do pure (.value (← Registry.placeValue value))
    | .path path => do pure (.path (← Registry.placePath path))
  return .arithmetic left a.op right

namespace UpdateTree

mutual

/-- The clauses of the actions for attributes inside a path. -/
def walk (path : Path) : UpdateTree → StateM Registry PlacedUpdate
  | [] => return {}
  | (name, action) :: rest => do
    let first ← walkAction (path.child name) action
    return first.append (← walk path rest)

/-- The clauses of the action for one attribute. -/
def walkAction (target : Path) : UpdateAction → StateM Registry PlacedUpdate
  | .nested entries => walk target entries
  | .remove => do return { removes := [← Registry.placePath target] }
  | .assign value => do
    let left ← Registry.placePath target
    let right ← Registry.placeValue value
    return { sets := [⟨left, .operand (.value right)⟩] }
  | .fallback fallback => do
    let left ← Registry.placePath target
    let right ← fallback.place
    return { sets := [⟨left, .operand right⟩] }
  | .arithmetic arithmetic => do
    let left ← Registry.placePath target
    let right ← arithmetic.place
    return { sets := [⟨left, right⟩] }

end

/-- The clauses of a tree, which must change something. -/
def compile (tree : UpdateTree) : Allocation PlacedUpdate := do
  let clauses ← walk [] tree
  if clauses.isEmpty then throw .emptyUpdate
  return clauses

end UpdateTree

end DocumentTable
