import DocumentTable.Condition.Compile

/-!
# Key conditions

A query names one partition and may restrict the sort key inside it.

## Main definitions

* `SortTest`: the tests of a sort key
* `KeyCondition`: a partition and possibly a test of the sort key
* `KeyClause`, `PlacedKeyClause`: the expression of a key condition, and the one with placeholders
* `KeyCondition.compile`: the clause of a key condition
-/

namespace DocumentTable

/-- A test that the service accepts on a sort key. -/
inductive SortTest where
  | eq (value : Json)
  | lt (value : Json)
  | le (value : Json)
  | gt (value : Json)
  | ge (value : Json)
  | beginsWith (start : Json)
  | between (lower upper : Json)
  deriving DecidableEq

/-- The same test as a condition. -/
def SortTest.toCondition : SortTest → Condition
  | eq value => .compareWith .eq value
  | lt value => .compareWith .lt value
  | le value => .compareWith .le value
  | gt value => .compareWith .gt value
  | ge value => .compareWith .ge value
  | beginsWith start => .test (.beginsWith start)
  | between lower upper => .test (.between lower upper)

/-- The partition of a query and a test of the sort key. -/
structure KeyCondition where
  partitionKey : String
  partition : Json
  sort : Option (String × SortTest) := none
  deriving DecidableEq

/-- The expression of a key condition. -/
structure KeyClause (ν β : Type) where
  partitionKey : List (Step ν)
  partition : β
  sort : Option (Clause ν β)
  deriving DecidableEq

/-- The expression of a key condition with placeholders for its names and its values. -/
abbrev PlacedKeyClause := KeyClause NamePlaceholder ValuePlaceholder

/-- The text of a key condition. -/
def KeyClause.text (clause : PlacedKeyClause) : String :=
  PlacedPath.text clause.partitionKey ++ " = " ++ clause.partition.text ++
    match clause.sort with
    | some sort => " and " ++ sort.text
    | none => ""

/-- The clause of a key condition. The test of the sort key has the same clause as a condition on
that attribute. -/
def KeyCondition.compile (key : KeyCondition) : Allocation PlacedKeyClause := do
  let name ← Registry.placePath (.ofName key.partitionKey)
  let value ← Registry.placeValue key.partition
  match key.sort with
  | none => return ⟨name, value, none⟩
  | some (sortKey, test) =>
    let sort ← (Condition.field sortKey test.toCondition).compile
    return ⟨name, value, some sort⟩

end DocumentTable
