import DocumentTable.KeyCondition
import DocumentTable.Update.Clause

/-!
# Names and values of expressions

Expressions have a parameter for what stands for names and one for what stands for values. Here are
the changes of parameters, and the names and the values that occur in an expression.

## Main definitions

* `Step.map`, `Clause.map`, `Change.map`, `KeyClause.map`: expressions over other names and values
* `pathNames`, `Clause.names`, `Clause.literals`, …: what occurs in an expression, in the order in
  which placeholders are given out
* `Change`: one assignment or one removal of an update
* `UpdateClauses.ofChanges`: the clauses of changes

## Main results

* `Clause.names_map`, `Clause.literals_map`, `Clause.map_map`, …: the laws of these
-/

namespace DocumentTable

variable {ν ν' ν'' β β' β'' : Type}

/-! ### Paths -/

/-- A step over other names. -/
def Step.map (f : ν → ν') : Step ν → Step ν'
  | name n => name (f n)
  | index i => index i

/-- The name of a step that has one. -/
def Step.name? : Step ν → Option ν
  | name n => some n
  | index _ => none

/-- The names of a path. -/
def pathNames (path : List (Step ν)) : List ν :=
  path.filterMap Step.name?

@[simp] theorem Step.map_name (f : ν → ν') (n : ν) : (name n).map f = name (f n) := rfl

@[simp] theorem Step.map_index (f : ν → ν') (i : UInt64) : (index i).map f = index i := rfl

/-- Names may be exchanged twice or once for both; this is what allows a renaming to be followed by
the placement of names. -/
@[simp] theorem Step.map_map (g : ν' → ν'') (f : ν → ν') (step : Step ν) :
    (step.map f).map g = step.map (g ∘ f) := by
  cases step <;> rfl

/-- Exchanging each name for itself changes nothing, which serves to write an expression as an
outline of its own. -/
@[simp] theorem Step.map_id : Step.map (id : ν → ν) = id :=
  funext fun step => by cases step <;> rfl

@[simp] theorem Step.map_comp_map (g : ν' → ν'') (f : ν → ν') :
    Step.map g ∘ Step.map f = Step.map (g ∘ f) :=
  funext fun step => step.map_map g f

@[simp] theorem pathNames_nil : pathNames ([] : List (Step ν)) = [] := rfl

@[simp] theorem pathNames_cons_name (n : ν) (rest : List (Step ν)) :
    pathNames (.name n :: rest) = n :: pathNames rest := rfl

@[simp] theorem pathNames_cons_index (i : UInt64) (rest : List (Step ν)) :
    pathNames (.index i :: rest) = pathNames rest := rfl

@[simp] theorem pathNames_map (f : ν → ν') (path : List (Step ν)) :
    pathNames (path.map (Step.map f)) = (pathNames path).map f := by
  induction path with
  | nil => rfl
  | cons step rest ih => cases step <;> simp [ih]

/-- Functions that agree on the names of a path change it in the same way. -/
theorem map_congr_pathNames {f g : ν → ν'} {path : List (Step ν)}
    (h : ∀ n ∈ pathNames path, f n = g n) : path.map (Step.map f) = path.map (Step.map g) := by
  apply List.map_congr_left
  intro step hstep
  cases step with
  | name n => exact congrArg Step.name (h n (List.mem_filterMap.2 ⟨_, hstep, rfl⟩))
  | index i => rfl

/-! ### Conditions -/

namespace Subject

/-- The path of the attribute that is compared, or whose size is. -/
def path : Subject ν → List (Step ν)
  | itself path => path
  | size path => path

/-- A subject over other names. -/
def map (f : ν → ν') : Subject ν → Subject ν'
  | itself path => itself (path.map (Step.map f))
  | size path => size (path.map (Step.map f))

@[simp] theorem path_map (f : ν → ν') (s : Subject ν) :
    (s.map f).path = s.path.map (Step.map f) := by
  cases s <;> rfl

@[simp] theorem map_map (g : ν' → ν'') (f : ν → ν') (s : Subject ν) :
    (s.map f).map g = s.map (g ∘ f) := by
  cases s <;> simp [map]

end Subject

namespace Clause

/-- A clause over other names and values. -/
def map (f : ν → ν') (g : β → β') : Clause ν β → Clause ν' β'
  | compare subject first rest =>
    compare (subject.map f) (Prod.map id g first) (rest.map (Prod.map id g))
  | between path lower upper => between (path.map (Step.map f)) (g lower) (g upper)
  | oneOf path first rest => oneOf (path.map (Step.map f)) (g first) (rest.map g)
  | call callee path argument => call callee (path.map (Step.map f)) (argument.map g)
  | negate clause => negate (clause.map f g)
  | join op left right => join op (left.map f g) (right.map f g)

/-- The names in a clause. -/
def names : Clause ν β → List ν
  | compare subject _ _ => pathNames subject.path
  | between path _ _ => pathNames path
  | oneOf path _ _ => pathNames path
  | call _ path _ => pathNames path
  | negate clause => clause.names
  | join _ left right => left.names ++ right.names

/-- The values in a clause. -/
def literals : Clause ν β → List β
  | compare _ first rest => first.2 :: rest.map Prod.snd
  | between _ lower upper => [lower, upper]
  | oneOf _ first rest => first :: rest
  | call _ _ argument => argument.toList
  | negate clause => clause.literals
  | join _ left right => left.literals ++ right.literals

@[simp] theorem names_map (f : ν → ν') (g : β → β') (c : Clause ν β) :
    (c.map f g).names = c.names.map f := by
  induction c with
  | negate c ih => simpa only [map, names] using ih
  | join op left right ihl ihr => simp only [map, names, ihl, ihr, List.map_append]
  | _ => simp [map, names]

@[simp] theorem literals_map (f : ν → ν') (g : β → β') (c : Clause ν β) :
    (c.map f g).literals = c.literals.map g := by
  induction c with
  | call callee path argument => cases argument <;> simp [map, literals]
  | negate c ih => simpa only [map, literals] using ih
  | join op left right ihl ihr => simp only [map, literals, ihl, ihr, List.map_append]
  | _ => simp [map, literals]

@[simp] theorem map_map (f' : ν' → ν'') (g' : β' → β'') (f : ν → ν') (g : β → β')
    (c : Clause ν β) : (c.map f g).map f' g' = c.map (f' ∘ f) (g' ∘ g) := by
  induction c with
  | negate c ih => simp only [map, ih]
  | join op left right ihl ihr => simp only [map, ihl, ihr]
  | _ => simp [map, Prod.map_comp_map, Prod.map_map]

/-- A chain of clauses over other names and values is the chain of its parts over them, whatever
operator joins it. -/
theorem map_joinAll (f : ν → ν') (g : β → β') (op : LogicalOp) (first : Clause ν β)
    (rest : List (Clause ν β)) :
    (joinAll op first rest).map f g = joinAll op (first.map f g) (rest.map (map f g)) := by
  induction rest generalizing first with
  | nil => rfl
  | cons c rest ih => exact ih (join op first c)

/-- The values of a chain are those of its parts from left to right, which is the order in which
they get placeholders. -/
theorem literals_joinAll (op : LogicalOp) (first : Clause ν β) (rest : List (Clause ν β)) :
    (joinAll op first rest).literals = first.literals ++ rest.flatMap literals := by
  induction rest generalizing first with
  | nil => exact (List.append_nil _).symm
  | cons c rest ih =>
      show (joinAll op (join op first c) rest).literals = _
      rw [ih, literals, List.flatMap_cons, List.append_assoc]

end Clause

/-! ### Updates -/

namespace Operand

/-- An operand over other names and values. -/
def map (f : ν → ν') (g : β → β') : Operand ν β → Operand ν' β'
  | path p => path (p.map (Step.map f))
  | fallback p v => fallback (p.map (Step.map f)) (g v)
  | value v => value (g v)

/-- The names in an operand. -/
def names : Operand ν β → List ν
  | path p => pathNames p
  | fallback p _ => pathNames p
  | value _ => []

/-- The values in an operand. -/
def literals : Operand ν β → List β
  | path _ => []
  | fallback _ v => [v]
  | value v => [v]

@[simp] theorem names_map (f : ν → ν') (g : β → β') (o : Operand ν β) :
    (o.map f g).names = o.names.map f := by
  cases o <;> simp [map, names]

@[simp] theorem literals_map (f : ν → ν') (g : β → β') (o : Operand ν β) :
    (o.map f g).literals = o.literals.map g := by
  cases o <;> simp [map, literals]

@[simp] theorem map_map (f' : ν' → ν'') (g' : β' → β'') (f : ν → ν') (g : β → β')
    (o : Operand ν β) : (o.map f g).map f' g' = o.map (f' ∘ f) (g' ∘ g) := by
  cases o <;> simp [map]

end Operand

namespace AssignedValue

/-- An assigned value over other names and values. -/
def map (f : ν → ν') (g : β → β') : AssignedValue ν β → AssignedValue ν' β'
  | operand o => operand (o.map f g)
  | arithmetic left op right => arithmetic (left.map f g) op (right.map f g)

/-- The names in an assigned value. -/
def names : AssignedValue ν β → List ν
  | operand o => o.names
  | arithmetic left _ right => left.names ++ right.names

/-- The values in an assigned value. -/
def literals : AssignedValue ν β → List β
  | operand o => o.literals
  | arithmetic left _ right => left.literals ++ right.literals

@[simp] theorem names_map (f : ν → ν') (g : β → β') (v : AssignedValue ν β) :
    (v.map f g).names = v.names.map f := by
  cases v <;> simp [map, names]

@[simp] theorem literals_map (f : ν → ν') (g : β → β') (v : AssignedValue ν β) :
    (v.map f g).literals = v.literals.map g := by
  cases v <;> simp [map, literals]

@[simp] theorem map_map (f' : ν' → ν'') (g' : β' → β'') (f : ν → ν') (g : β → β')
    (v : AssignedValue ν β) : (v.map f g).map f' g' = v.map (f' ∘ f) (g' ∘ g) := by
  cases v <;> simp [map]

end AssignedValue

/-- An assignment over other names and values. -/
def Assignment.map (f : ν → ν') (g : β → β') (a : Assignment ν β) : Assignment ν' β' :=
  ⟨a.target.map (Step.map f), a.value.map f g⟩

/-- One assignment or one removal of an update. -/
inductive Change (ν β : Type) where
  | set (assignment : Assignment ν β)
  | remove (target : List (Step ν))
  deriving DecidableEq

namespace Change

/-- A change over other names and values. -/
def map (f : ν → ν') (g : β → β') : Change ν β → Change ν' β'
  | set a => set (a.map f g)
  | remove target => remove (target.map (Step.map f))

/-- The names in a change. -/
def names : Change ν β → List ν
  | set a => pathNames a.target ++ a.value.names
  | remove target => pathNames target

/-- The values in a change. -/
def literals : Change ν β → List β
  | set a => a.value.literals
  | remove _ => []

/-- The assignment of a change that is one. -/
def set? : Change ν β → Option (Assignment ν β)
  | set a => some a
  | remove _ => none

/-- The target of a change that is a removal. -/
def remove? : Change ν β → Option (List (Step ν))
  | set _ => none
  | remove target => some target

@[simp] theorem names_map (f : ν → ν') (g : β → β') (c : Change ν β) :
    (c.map f g).names = c.names.map f := by
  cases c <;> simp [map, names, Assignment.map]

@[simp] theorem literals_map (f : ν → ν') (g : β → β') (c : Change ν β) :
    (c.map f g).literals = c.literals.map g := by
  cases c <;> simp [map, literals, Assignment.map]

@[simp] theorem map_map (f' : ν' → ν'') (g' : β' → β'') (f : ν → ν') (g : β → β')
    (c : Change ν β) : (c.map f g).map f' g' = c.map (f' ∘ f) (g' ∘ g) := by
  cases c <;> simp [map, Assignment.map]

end Change

namespace UpdateClauses

/-- The clauses of changes: the assignments and the removals among them, each in their order. -/
def ofChanges (changes : List (Change ν β)) : UpdateClauses ν β :=
  ⟨changes.filterMap Change.set?, changes.filterMap Change.remove?⟩

/-- Changes may be sorted into clauses piece by piece: the clauses of a list are those of its parts,
one behind the other. -/
theorem ofChanges_append (a b : List (Change ν β)) :
    ofChanges (a ++ b) = (ofChanges a).append (ofChanges b) := by
  simp [ofChanges, append]

end UpdateClauses

/-! ### Key conditions -/

namespace KeyClause

/-- A key condition over other names and values. -/
def map (f : ν → ν') (g : β → β') (k : KeyClause ν β) : KeyClause ν' β' :=
  ⟨k.partitionKey.map (Step.map f), g k.partition, k.sort.map (Clause.map f g)⟩

/-- The names in a key condition. -/
def names (k : KeyClause ν β) : List ν :=
  pathNames k.partitionKey ++ (k.sort.map Clause.names).getD []

/-- The values in a key condition. -/
def literals (k : KeyClause ν β) : List β :=
  k.partition :: (k.sort.map Clause.literals).getD []

@[simp] theorem names_map (f : ν → ν') (g : β → β') (k : KeyClause ν β) :
    (k.map f g).names = k.names.map f := by
  obtain ⟨partitionKey, partition, sort⟩ := k
  cases sort <;> simp [map, names]

@[simp] theorem literals_map (f : ν → ν') (g : β → β') (k : KeyClause ν β) :
    (k.map f g).literals = k.literals.map g := by
  obtain ⟨partitionKey, partition, sort⟩ := k
  cases sort <;> simp [map, literals]

end KeyClause

end DocumentTable
