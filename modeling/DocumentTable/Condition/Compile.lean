import DocumentTable.Condition.Clause

/-!
# From conditions to clauses

## Main definitions

* `Condition.place`: the clause of a condition at a path
* `Condition.compile`: the clause of a whole condition

## Design notes

A condition inherits the operator of the enclosing combinator, which is `AND` at the top. The
fields of an attribute are combined with the inherited operator, and start again from `AND` below
it. Everything is looked at from left to right; the first fault decides.
-/

namespace DocumentTable

namespace Comparator

/-- The clause of comparisons of a subject. -/
def place (c : Comparator) (subject : Subject NamePlaceholder) : StateM Registry PlacedClause := do
  let first ← Registry.placeValue c.first.2
  let rest ← placeRest c.rest
  return .compare subject (c.first.1, first) rest
where
  /-- The comparisons after the first one. -/
  placeRest : List (CompareOp × Json) → StateM Registry (List (CompareOp × ValuePlaceholder))
    | [] => return []
    | (op, value) :: rest => do
      let p ← Registry.placeValue value
      return (op, p) :: (← placeRest rest)

end Comparator

namespace Predicate

/-- The call of a function with one argument. -/
def placeCall (callee : Callee) (path : PlacedPath) (argument : Json) :
    StateM Registry PlacedClause := do
  return .call callee path (some (← Registry.placeValue argument))

/-- The clause of a test of the attribute at a path. -/
def place (predicate : Predicate) (path : Path) : Allocation PlacedClause := do
  let placed ← Registry.placePath path
  match predicate with
  | present => return .call .attributeExists placed none
  | absent => return .call .attributeNotExists placed none
  | hasType tag => placeCall .attributeType placed (.string tag)
  | beginsWith start => placeCall .beginsWith placed start
  | contains operand => placeCall .contains placed operand
  | between lower upper =>
    let low ← Registry.placeValue lower
    let high ← Registry.placeValue upper
    return .between placed low high
  | oneOf [] => throw (.emptyInList path)
  | oneOf (candidate :: others) =>
    let first ← Registry.placeValue candidate
    let rest ← Registry.placeValues others
    return .oneOf placed first rest
  | size comparator => comparator.place (.size placed)

end Predicate

namespace Condition

mutual

/-- The clause of a condition at a path, under the operator of the enclosing combinator. -/
def place (path : Path) (op : LogicalOp) : Condition → Allocation PlacedClause
  | compare comparator =>
    if path.isEmpty then throw (.leafWithoutPath "comparator")
    else do
      let placed ← Registry.placePath path
      comparator.place (.itself placed)
  | test predicate =>
    if path.isEmpty then throw (.leafWithoutPath predicate.name)
    else predicate.place path
  | fields [] => throw (.emptyFields path)
  | fields ((name, condition) :: entries) => do
    let first ← place (path.child name) .and condition
    let rest ← placeFields path entries
    return .joinAll op first rest
  | all operands => do
    let (first, rest) ← placeOperands path .and .all operands
    return .joinAll .and first rest
  | any operands => do
    let (first, rest) ← placeOperands path .or .any operands
    return .joinAll .or first rest
  | not operands => do
    let (first, rest) ← placeOperands path .and .not operands
    return .negate (.joinAll .and first rest)
  | list operands => do
    let (first, rest) ← placeOperands path op .list operands
    return .joinAll op first rest

/-- The clauses of fields. -/
def placeFields (path : Path) : List (String × Condition) → Allocation (List PlacedClause)
  | [] => return []
  | (name, condition) :: entries => do
    let clause ← place (path.child name) .and condition
    return clause :: (← placeFields path entries)

/-- The clauses of the operands of a combinator, of which there is at least one. -/
def placeOperands (path : Path) (op : LogicalOp) (combinator : Combinator) :
    List Condition → Allocation (PlacedClause × List PlacedClause)
  | [] => throw (.emptyCombinator combinator)
  | operand :: operands => do
    let first ← place path op operand
    return (first, ← placeRest path op operands)

/-- The clauses of operands. -/
def placeRest (path : Path) (op : LogicalOp) : List Condition → Allocation (List PlacedClause)
  | [] => return []
  | operand :: operands => do
    let clause ← place path op operand
    return clause :: (← placeRest path op operands)

end

/-- The clause of a whole condition. -/
def compile (condition : Condition) : Allocation PlacedClause :=
  condition.place [] .and

end Condition

end DocumentTable
