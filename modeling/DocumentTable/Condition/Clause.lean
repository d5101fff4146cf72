import DocumentTable.Condition.Basic
import DocumentTable.Placeholder

/-!
# Condition clauses

The expressions that the service reads as conditions, with placeholders for names and values.

## Main definitions

* `Subject`: what is compared, an attribute or its size
* `Callee`: the functions that a clause may call
* `Clause`, `PlacedClause`: condition expressions, and those with placeholders
* `Clause.text`: their text

## Design notes

What stands for names and for values is a parameter, as it is in a path.
-/

namespace DocumentTable

/-- What is compared with a value. -/
inductive Subject (ν : Type) where
  | itself (path : List (Step ν))
  | size (path : List (Step ν))
  deriving DecidableEq

/-- The text of a subject. -/
def Subject.text : Subject NamePlaceholder → String
  | itself path => PlacedPath.text path
  | size path => "size (" ++ PlacedPath.text path ++ ")"

/-- A function that tests an attribute. -/
inductive Callee where
  | attributeExists
  | attributeNotExists
  | attributeType
  | beginsWith
  | contains
  deriving DecidableEq, Repr

/-- The name of a function. -/
def Callee.name : Callee → String
  | attributeExists => "attribute_exists"
  | attributeNotExists => "attribute_not_exists"
  | attributeType => "attribute_type"
  | beginsWith => "begins_with"
  | contains => "contains"

/-- A condition expression. -/
inductive Clause (ν β : Type) where
  /-- Comparisons of one subject, all of which must hold. -/
  | compare (subject : Subject ν) (first : CompareOp × β) (rest : List (CompareOp × β))
  | between (path : List (Step ν)) (lower upper : β)
  | oneOf (path : List (Step ν)) (first : β) (rest : List β)
  | call (callee : Callee) (path : List (Step ν)) (argument : Option β)
  | negate (clause : Clause ν β)
  | join (op : LogicalOp) (left right : Clause ν β)
  deriving DecidableEq

/-- A condition expression with placeholders for its names and its values. -/
abbrev PlacedClause := Clause NamePlaceholder ValuePlaceholder

namespace Clause

/-- The text of one comparison. -/
def comparisonText (subject : Subject NamePlaceholder)
    (comparison : CompareOp × ValuePlaceholder) : String :=
  subject.text ++ " " ++ comparison.1.text ++ " " ++ comparison.2.text

/-- The text of a clause. Joined clauses stand in parentheses; comparisons of one subject do not. -/
def text : PlacedClause → String
  | compare subject first rest =>
    String.intercalate " AND " ((first :: rest).map (comparisonText subject))
  | between path lower upper =>
    PlacedPath.text path ++ " BETWEEN " ++ lower.text ++ " AND " ++ upper.text
  | oneOf path first rest =>
    PlacedPath.text path ++ " in (" ++
      String.intercalate ", " ((first :: rest).map ValuePlaceholder.text) ++ ")"
  | call callee path none => callee.name ++ " (" ++ PlacedPath.text path ++ ")"
  | call callee path (some value) =>
    callee.name ++ " (" ++ PlacedPath.text path ++ ", " ++ value.text ++ ")"
  | negate clause => "NOT (" ++ clause.text ++ ")"
  | join op left right =>
    "(" ++ left.text ++ ") " ++ op.text ++ " (" ++ right.text ++ ")"

/-- Clauses joined from the left. -/
def joinAll {ν β : Type} (op : LogicalOp) (first : Clause ν β) (rest : List (Clause ν β)) :
    Clause ν β :=
  rest.foldl (join op) first

end Clause

end DocumentTable
