import DocumentTable.Json.Basic

/-!
# Conditions

Trees of tests on the attributes of an item. Fields say which attribute a test is about; combinators
say how tests are combined.

## Main definitions

* `CompareOp`, `LogicalOp`: operators
* `Comparator`: comparisons of one attribute with values, all of which must hold
* `Predicate`: the other tests of one attribute
* `Condition`: trees of tests
-/

namespace DocumentTable

/-- A comparison of two values. -/
inductive CompareOp where
  | eq
  | ne
  | lt
  | le
  | gt
  | ge
  deriving DecidableEq, Repr

/-- The text of a comparison. -/
def CompareOp.text : CompareOp → String
  | eq => "="
  | ne => "<>"
  | lt => "<"
  | le => "<="
  | gt => ">"
  | ge => ">="

/-- A combination of two conditions. -/
inductive LogicalOp where
  | and
  | or
  deriving DecidableEq, Repr

/-- The text of a combination. -/
def LogicalOp.text : LogicalOp → String
  | and => "AND"
  | or => "OR"

/-- One or more comparisons of the same attribute, all of which must hold. -/
structure Comparator where
  first : CompareOp × Json
  rest : List (CompareOp × Json) := []
  deriving DecidableEq

/-- The comparisons in order. -/
def Comparator.toList (c : Comparator) : List (CompareOp × Json) :=
  c.first :: c.rest

/-- A single comparison. -/
def Comparator.single (op : CompareOp) (value : Json) : Comparator :=
  ⟨(op, value), []⟩

/-- A test of one attribute other than a comparison. -/
inductive Predicate where
  /-- The attribute is there. -/
  | present
  /-- The attribute is not there. -/
  | absent
  /-- The attribute has the type with this tag. -/
  | hasType (tag : String)
  | beginsWith (start : Json)
  | contains (operand : Json)
  /-- The attribute lies between two values, both included. -/
  | between (lower upper : Json)
  | oneOf (candidates : List Json)
  /-- The size of the attribute compares as said. -/
  | size (comparator : Comparator)
  deriving DecidableEq

/-- The name of a test. -/
def Predicate.name : Predicate → String
  | present => "attribute_exists"
  | absent => "attribute_not_exists"
  | hasType _ => "attribute_type"
  | beginsWith _ => "begins_with"
  | contains _ => "contains"
  | between _ _ => "between"
  | oneOf _ => "in"
  | size _ => "size"

/-- A tree of tests. -/
inductive Condition where
  | compare (comparator : Comparator)
  | test (predicate : Predicate)
  /-- A condition for each of some attributes inside the current one, in order. -/
  | fields (entries : List (String × Condition))
  /-- All operands hold. -/
  | all (operands : List Condition)
  /-- Some operand holds. -/
  | any (operands : List Condition)
  /-- Not all operands hold. -/
  | not (operands : List Condition)
  /-- The operands are combined as the enclosing combinator says. -/
  | list (operands : List Condition)

namespace Condition

/-- A condition on one attribute. -/
def field (name : String) (condition : Condition) : Condition :=
  fields [(name, condition)]

/-- A single comparison. -/
def compareWith (op : CompareOp) (value : Json) : Condition :=
  compare (.single op value)

end Condition

end DocumentTable
