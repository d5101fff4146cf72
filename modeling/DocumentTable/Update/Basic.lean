import DocumentTable.Json.Basic
import DocumentTable.Path

/-!
# Updates

Trees that say what to do with each attribute of an item.

## Main definitions

* `Fallback`: the value of an attribute, or another value where there is none
* `Arithmetic`: a sum or a difference
* `UpdateAction`, `UpdateTree`: what to do with attributes, in order
* `UpdateTree.set`, `UpdateTree.remove`: sets the action of a name
* `UpdateTree.ofList`: the tree of actions that are set one after the other
* `UpdateTree.ofDocument`, `UpdateTree.ofValues`: the tree of a document
-/

namespace DocumentTable

/-- The value of an attribute, or another value where there is none. -/
structure Fallback where
  path : Path
  value : Json
  deriving DecidableEq

/-- A sum or a difference. -/
inductive ArithmeticOp where
  | plus
  | minus
  deriving DecidableEq, Repr

/-- The text of an operator. -/
def ArithmeticOp.text : ArithmeticOp → String
  | plus => "+"
  | minus => "-"

/-- What is added to, or subtracted from. -/
inductive LeftOperand where
  | path (path : Path)
  | fallback (fallback : Fallback)
  deriving DecidableEq

/-- What is added or subtracted. -/
inductive RightOperand where
  | value (value : Json)
  | path (path : Path)
  deriving DecidableEq

/-- A sum or a difference of two operands. -/
structure Arithmetic where
  left : LeftOperand
  op : ArithmeticOp
  right : RightOperand
  deriving DecidableEq

/-- What to do with an attribute. -/
inductive UpdateAction where
  | assign (value : Json)
  | remove
  /-- Actions for attributes inside this one, in order. -/
  | nested (entries : List (String × UpdateAction))
  | fallback (fallback : Fallback)
  | arithmetic (arithmetic : Arithmetic)

/-- Actions for attributes, in order. -/
abbrev UpdateTree := List (String × UpdateAction)

namespace UpdateTree

/-- Sets the action of a name, in the place of an earlier one if there is one, or else at the
end. -/
def set (name : String) (action : UpdateAction) : UpdateTree → UpdateTree
  | [] => [(name, action)]
  | (n, a) :: rest => if n = name then (n, action) :: rest else (n, a) :: set name action rest

/-- Sets a name to be removed. -/
def remove (name : String) (tree : UpdateTree) : UpdateTree :=
  set name .remove tree

/-- The tree of actions that are set one after the other. -/
def ofList (entries : List (String × UpdateAction)) : UpdateTree :=
  entries.foldl (fun tree entry => set entry.1 entry.2 tree) []

mutual

/-- The actions of the members of a document. -/
def ofDocument : Document → UpdateTree
  | [] => []
  | (name, value) :: rest => (name, ofValue value) :: ofDocument rest

/-- The action of a value: null removes, an object goes on inside, anything else is assigned. -/
def ofValue : Json → UpdateAction
  | .null => .remove
  | .object members => .nested (ofDocument members)
  | .bool b => .assign (.bool b)
  | .number n => .assign (.number n)
  | .string s => .assign (.string s)
  | .array items => .assign (.array items)

end

/-- The tree of the document that has the given members, in whatever order they are given. -/
def ofValues (members : List (String × Json)) : UpdateTree :=
  ofDocument (Dict.ofList members)

end UpdateTree

end DocumentTable
