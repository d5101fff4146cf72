import DocumentTable.Path

/-!
# Malformed expressions

A condition, an update or a path that has no expression text. These are mistakes of the program that
makes it, and nothing is sent.

## Main definitions

* `Combinator`: the ways to combine conditions
* `ExpressionError`: all causes, with their wording in `ExpressionError.message`
-/

namespace DocumentTable

/-- A way to combine conditions. -/
inductive Combinator where
  | all
  | any
  | not
  | list
  deriving DecidableEq, Repr

/-- The name of a way to combine conditions. -/
def Combinator.name : Combinator → String
  | all => "AND"
  | any => "OR"
  | not => "NOT"
  | list => "list"

/-- Why an expression is malformed. -/
inductive ExpressionError where
  /-- A test stands outside of all attributes. -/
  | leafWithoutPath (leaf : String)
  /-- The fields of an attribute are none. -/
  | emptyFields (path : Path)
  /-- The operands of a combinator are none. -/
  | emptyCombinator (combinator : Combinator)
  /-- The candidates of a membership test are none. -/
  | emptyInList (path : Path)
  /-- The update changes nothing. -/
  | emptyUpdate
  /-- A text is no path. -/
  | invalidPath (text : String) (fault : PathFault)
  deriving DecidableEq

/-- The wording of an error. -/
def ExpressionError.message : ExpressionError → String
  | leafWithoutPath leaf => s!"Condition leaf `{leaf}` is not attached to an attribute"
  | emptyFields path => "Condition field map at `" ++ path.text ++ "` is empty"
  | emptyCombinator combinator => "Condition " ++ combinator.name ++ " has no operands"
  | emptyInList path => "`in` condition on `" ++ path.text ++ "` has no candidate values"
  | emptyUpdate => "Update produces no actions"
  | invalidPath text fault => s!"Invalid attribute path `{text}`: " ++ fault.message

/-- The path of a text that has to be one. -/
def Path.parseOrRefuse (text : String) : Except ExpressionError Path :=
  match Path.parse text with
  | .ok path => .ok path
  | .error fault => .error (.invalidPath text fault)

end DocumentTable
