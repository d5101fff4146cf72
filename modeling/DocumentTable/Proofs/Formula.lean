import DocumentTable.Proofs.Occurrence
import Mathlib.Data.List.Induction

/-!
# Formulas

What a condition expression says, apart from how it is written: a combination of tests.

## Main definitions

* `Term`, `Test`, `Formula`: operands, tests, and their combinations
* `Formula.eval`: the truth of a formula when the truth of all tests is known
* `Formula.resolve`: a formula with names and values in the place of what stands for them
* `SameUpToAnd`: formulas that differ in how conjunctions are grouped
* `Clause.formula`: the formula of a clause

## Main results

* `SameUpToAnd.eval_resolve`: the grouping of conjunctions does not matter
* `Clause.resolve_formula`: the formula of a clause over placeholders, resolved, is that of the
  clause over what they stand for
-/

namespace DocumentTable

variable {ν ν' ν'' β β' β'' : Type}

/-! ### Syntax -/

/-- An operand of a test. -/
inductive Term (ν β : Type) where
  | path (path : List (Step ν))
  | size (path : List (Step ν))
  | value (value : β)
  deriving DecidableEq

/-- A test, which is true or false of an item. -/
inductive Test (ν β : Type) where
  | compare (left : Term ν β) (op : CompareOp) (right : Term ν β)
  | between (operand lower upper : Term ν β)
  | oneOf (operand first : Term ν β) (rest : List (Term ν β))
  | call (callee : Callee) (path : List (Step ν)) (argument : Option (Term ν β))
  deriving DecidableEq

/-- A combination of tests. -/
inductive Formula (ν β : Type) where
  | test (test : Test ν β)
  | negate (formula : Formula ν β)
  | join (op : LogicalOp) (left right : Formula ν β)
  deriving DecidableEq

/-! ### Truth -/

/-- The combination of two truth values. -/
def LogicalOp.apply : LogicalOp → Bool → Bool → Bool
  | and => Bool.and
  | or => Bool.or

/-- The truth of a formula, given that of its tests. -/
def Formula.eval (truth : Test ν β → Bool) : Formula ν β → Bool
  | test t => truth t
  | negate f => !f.eval truth
  | join op left right => op.apply (left.eval truth) (right.eval truth)

/-! ### Resolution -/

/-- The path with the names that stand behind its names. -/
def resolvePath (names : ν → Option ν') : List (Step ν) → Option (List (Step ν'))
  | [] => some []
  | .name n :: rest => do
    let n ← names n
    return .name n :: (← resolvePath names rest)
  | .index i :: rest => do return .index i :: (← resolvePath names rest)

variable (names : ν → Option ν') (values : β → Option β')

/-- The operand with what stands behind its names and its value. -/
def Term.resolve : Term ν β → Option (Term ν' β')
  | path p => do return .path (← resolvePath names p)
  | size p => do return .size (← resolvePath names p)
  | value v => do return .value (← values v)

/-- The operands with what stands behind their names and their values. -/
def resolveTerms : List (Term ν β) → Option (List (Term ν' β'))
  | [] => some []
  | term :: rest => do
    let first ← term.resolve names values
    return first :: (← resolveTerms rest)

/-- The test with what stands behind its names and its values. -/
def Test.resolve : Test ν β → Option (Test ν' β')
  | compare left op right => do
    let left ← left.resolve names values
    return .compare left op (← right.resolve names values)
  | between operand lower upper => do
    let operand ← operand.resolve names values
    let lower ← lower.resolve names values
    return .between operand lower (← upper.resolve names values)
  | oneOf operand first rest => do
    let operand ← operand.resolve names values
    let first ← first.resolve names values
    return .oneOf operand first (← resolveTerms names values rest)
  | call callee path none => do return .call callee (← resolvePath names path) none
  | call callee path (some argument) => do
    let path ← resolvePath names path
    return .call callee path (some (← argument.resolve names values))

/-- The formula with what stands behind its names and its values. -/
def Formula.resolve : Formula ν β → Option (Formula ν' β')
  | test t => do return .test (← t.resolve names values)
  | negate f => do return .negate (← f.resolve)
  | join op left right => do
    let left ← left.resolve
    return .join op left (← right.resolve)

/-! ### Grouping of conjunctions -/

/-- Formulas that differ in how conjunctions are grouped only. -/
inductive SameUpToAnd : Formula ν β → Formula ν β → Prop
  | refl (f : Formula ν β) : SameUpToAnd f f
  | symm {f g : Formula ν β} : SameUpToAnd f g → SameUpToAnd g f
  | trans {f g h : Formula ν β} : SameUpToAnd f g → SameUpToAnd g h → SameUpToAnd f h
  | negate {f g : Formula ν β} : SameUpToAnd f g → SameUpToAnd (.negate f) (.negate g)
  | join (op : LogicalOp) {f f' g g' : Formula ν β} : SameUpToAnd f f' → SameUpToAnd g g' →
      SameUpToAnd (.join op f g) (.join op f' g')
  | assoc (f g h : Formula ν β) :
      SameUpToAnd (.join .and (.join .and f g) h) (.join .and f (.join .and g h))

/-- How conjunctions are grouped does not matter for the truth of a formula, whatever its references
stand for. -/
theorem SameUpToAnd.eval_resolve {f g : Formula ν β} (h : SameUpToAnd f g)
    (truth : Test ν' β' → Bool) :
    (f.resolve names values).map (Formula.eval truth) =
      (g.resolve names values).map (Formula.eval truth) := by
  induction h with
  | refl => rfl
  | symm _ ih => exact ih.symm
  | trans _ _ ih ih' => exact ih.trans ih'
  | @negate f g _ ih =>
      have := congrArg (Option.map Bool.not) ih
      rw [Formula.resolve, Formula.resolve]
      cases hf : f.resolve names values <;> cases hg : g.resolve names values <;>
        simp_all [Formula.eval]
  | @join op f f' g g' _ _ ihf ihg =>
      rw [Formula.resolve, Formula.resolve]
      cases hf : f.resolve names values <;> cases hf' : f'.resolve names values <;>
        cases hg : g.resolve names values <;> cases hg' : g'.resolve names values <;>
        simp_all [Formula.eval]
  | assoc f g h =>
      simp only [Formula.resolve]
      cases f.resolve names values <;> cases g.resolve names values <;>
        cases h.resolve names values <;> simp [Formula.eval, LogicalOp.apply, Bool.and_assoc]

/-! ### Formulas of clauses -/

/-- Formulas that all hold, grouped from the left. -/
def conjoin (first : Formula ν β) (rest : List (Formula ν β)) : Formula ν β :=
  rest.foldl (.join .and) first

@[simp] theorem eval_conjoin (truth : Test ν β → Bool) (first : Formula ν β)
    (rest : List (Formula ν β)) :
    (conjoin first rest).eval truth = (first :: rest).all (Formula.eval truth) := by
  induction rest generalizing first with
  | nil => exact (Bool.and_true _).symm
  | cons f rest ih =>
      show (conjoin (.join .and first f) rest).eval truth = _
      rw [ih]
      simp [Formula.eval, LogicalOp.apply, Bool.and_assoc]

/-- The conjunction of two conjunctions is one of all their parts. -/
theorem sameUpToAnd_conjoin (first : Formula ν β) (rest : List (Formula ν β)) (f : Formula ν β)
    (rest' : List (Formula ν β)) :
    SameUpToAnd (.join .and (conjoin first rest) (conjoin f rest'))
      (conjoin first (rest ++ f :: rest')) := by
  induction rest' using List.reverseRecOn with
  | nil =>
      rw [conjoin, conjoin, conjoin, List.foldl_append]
      exact .refl _
  | append_singleton rest' g ih =>
      have split (a : Formula ν β) (l : List (Formula ν β)) :
          conjoin a (l ++ [g]) = .join .and (conjoin a l) g := by
        rw [conjoin, List.foldl_append]
        rfl
      -- the last formula leaves the second conjunction and is joined to the whole
      rw [split, ← List.cons_append, ← List.append_assoc, split]
      exact (SameUpToAnd.assoc _ _ _).symm.trans (.join .and ih (.refl g))

/-- A subject as an operand. -/
def Subject.term : Subject ν → Term ν β
  | itself p => .path p
  | size p => .size p

namespace Clause

/-- One comparison of a subject. -/
def comparison (subject : Subject ν) (c : CompareOp × β) : Formula ν β :=
  .test (.compare subject.term c.1 (.value c.2))

/-- The formula of a clause. -/
def formula : Clause ν β → Formula ν β
  | compare subject first rest =>
    conjoin (comparison subject first) (rest.map (comparison subject))
  | between path lower upper => .test (.between (.path path) (.value lower) (.value upper))
  | oneOf path first rest => .test (.oneOf (.path path) (.value first) (rest.map .value))
  | call callee path argument => .test (.call callee path (argument.map .value))
  | negate clause => .negate clause.formula
  | join op left right => .join op left.formula right.formula

end Clause

/-! ### Formulas of entries -/

section Entries

variable {ε δ : Type} {names : ν → Option ν'} {values : β → Option β'} {f : ε → ν} {g : ε → ν'}
  {f' : δ → β} {g' : δ → β'}

/-- The names on a path are resolved one by one. Entries have both sides, what is written and what
it stands for. -/
theorem resolvePath_map {path : List (Step ε)}
    (h : ∀ e ∈ pathNames path, names (f e) = some (g e)) :
    resolvePath names (path.map (Step.map f)) = some (path.map (Step.map g)) := by
  induction path with
  | nil => rfl
  | cons step rest ih =>
      cases step with
      | name e =>
          rw [pathNames_cons_name, List.forall_mem_cons] at h
          simp [resolvePath, h.1, ih h.2]
      | index i => simp [resolvePath, ih h]

theorem resolveTerms_map {entries : List δ} (h : ∀ v ∈ entries, values (f' v) = some (g' v)) :
    resolveTerms names values (entries.map fun v => .value (f' v)) =
      some (entries.map fun v => .value (g' v)) := by
  induction entries with
  | nil => rfl
  | cons v rest ih =>
      rw [List.forall_mem_cons] at h
      simp [resolveTerms, Term.resolve, h.1, ih h.2]

theorem resolve_conjoin {first : Formula ν β} {first' : Formula ν' β'} {rest : List (Formula ν β)}
    {rest' : List (Formula ν' β')} (h : first.resolve names values = some first')
    (h' : rest.map (Formula.resolve names values) = rest'.map some) :
    (conjoin first rest).resolve names values = some (conjoin first' rest') := by
  induction rest generalizing first first' rest' with
  | nil =>
      cases rest' with
      | nil => exact h
      | cons _ _ => cases h'
  | cons formula rest ih =>
      cases rest' with
      | nil => cases h'
      | cons formula' rest' =>
          obtain ⟨head, tail⟩ := List.cons.inj h'
          have grouped : (Formula.join .and first formula).resolve names values =
              some (.join .and first' formula') := by
            rw [Formula.resolve, h, head]
            rfl
          have joined := ih grouped tail
          exact joined

theorem Subject.resolve_term {subject : Subject ε}
    (h : ∀ e ∈ pathNames subject.path, names (f e) = some (g e)) :
    ((subject.map f).term : Term ν β).resolve names values = some (subject.map g).term := by
  cases subject with
  | itself p =>
      have path : resolvePath names (p.map (Step.map f)) = _ := resolvePath_map h
      simp [map, term, Term.resolve, path]
  | size p =>
      have path : resolvePath names (p.map (Step.map f)) = _ := resolvePath_map h
      simp [map, term, Term.resolve, path]

/-- The formula of a clause over one side of entries, resolved, is that of the clause over their
other side, by induction on the clause. -/
theorem Clause.resolve_formula {entries : Clause ε δ}
    (h : ∀ e ∈ entries.names, names (f e) = some (g e))
    (h' : ∀ v ∈ entries.literals, values (f' v) = some (g' v)) :
    (entries.map f f').formula.resolve names values = some (entries.map g g').formula := by
  induction entries with
  | compare subject first rest =>
      have single (c : CompareOp × δ) (hc : values (f' c.2) = some (g' c.2)) :
          (comparison (subject.map f) (Prod.map id f' c)).resolve names values =
            some (comparison (subject.map g) (Prod.map id g' c)) := by
        rw [comparison, Formula.resolve, Test.resolve, Subject.resolve_term h]
        simp [Term.resolve, hc, comparison]
      rw [literals, List.forall_mem_cons, List.forall_mem_map] at h'
      -- the names are those of the one subject, the values those of the comparisons
      refine resolve_conjoin (single first h'.1) ?_
      rw [List.map_map, List.map_map, List.map_map, List.map_map]
      exact List.map_congr_left fun c hc => single c (h'.2 c hc)
  | between path lower upper =>
      simp only [literals, List.forall_mem_cons] at h'
      simp [map, formula, Formula.resolve, Test.resolve, Term.resolve, resolvePath_map h, h'.1,
        h'.2.1]
  | oneOf path first rest =>
      rw [literals, List.forall_mem_cons] at h'
      have others : resolveTerms names values _ = _ := resolveTerms_map h'.2
      simp [map, formula, Formula.resolve, Test.resolve, Term.resolve, resolvePath_map h, h'.1,
        others, Function.comp_def]
  | call callee path argument =>
      cases argument with
      | none => simp [map, formula, Formula.resolve, Test.resolve, resolvePath_map h]
      | some v =>
          have value := h' v (List.mem_singleton_self v)
          simp [map, formula, Formula.resolve, Test.resolve, Term.resolve, resolvePath_map h, value]
  | negate clause ih => simp [map, formula, Formula.resolve, ih h h']
  | join op left right ihl ihr =>
      rw [Clause.names, List.forall_mem_append] at h
      rw [literals, List.forall_mem_append] at h'
      simp [map, formula, Formula.resolve, ihl h.1 h'.1, ihr h.2 h'.2]

end Entries

end DocumentTable
