import DocumentTable.Proofs.Run

/-!
# Outlines

The outline of an expression is what is left of it without its values. Names may be changed on the
way. Expressions with the same outline are translated alike: to expressions with the same outline,
or to the same error about the changed names.

## Main definitions

* `Condition.outline`, `UpdateTree.outline`, `KeyCondition.outline`: an expression with its names
  changed and without its values
* `Condition.literals`, `UpdateTree.literals`, `KeyCondition.literals`: the values of an expression,
  in their order
* `Alike`: two translations with the same outline

## Main results

* `Condition.draft_outline`, `UpdateTree.changes_outline`, `KeyCondition.draft_outline`: expressions
  are translated by their outlines
* `Condition.literals_draft`, `UpdateTree.literals_changes`, `KeyCondition.literals_draft`: no value
  is lost, and their order stays

## Design notes

Two expressions have the same outline when they differ in their values only. The values may change
independently of one another, also where they were the same.
-/

namespace DocumentTable

/-! ### Outlines -/

/-- In the place of a value that is left open. -/
def blank : Json → Json :=
  fun _ => .null

/-- Comparisons without their values. -/
def Comparator.outline (c : Comparator) : Comparator :=
  ⟨Prod.map id blank c.first, c.rest.map (Prod.map id blank)⟩

/-- A test without its values. -/
def Predicate.outline : Predicate → Predicate
  | present => present
  | absent => absent
  | hasType _ => hasType ""
  | beginsWith start => beginsWith (blank start)
  | contains operand => contains (blank operand)
  | between lower upper => between (blank lower) (blank upper)
  | oneOf candidates => oneOf (candidates.map blank)
  | size comparator => size comparator.outline

namespace Condition

mutual

/-- A condition with its names changed and without its values. -/
def outline (ρ : String → String) : Condition → Condition
  | compare comparator => compare comparator.outline
  | test predicate => test predicate.outline
  | fields entries => fields (outlineFields ρ entries)
  | all operands => all (outlineAll ρ operands)
  | any operands => any (outlineAll ρ operands)
  | not operands => not (outlineAll ρ operands)
  | list operands => list (outlineAll ρ operands)

/-- Fields with their names changed and without their values. -/
def outlineFields (ρ : String → String) : List (String × Condition) → List (String × Condition)
  | [] => []
  | (name, condition) :: entries => (ρ name, outline ρ condition) :: outlineFields ρ entries

/-- Operands with their names changed and without their values. -/
def outlineAll (ρ : String → String) : List Condition → List Condition
  | [] => []
  | operand :: operands => outline ρ operand :: outlineAll ρ operands

end

end Condition

/-- A fallback with its names changed and without its value. -/
def Fallback.outline (ρ : String → String) (f : Fallback) : Fallback :=
  ⟨f.path.map (Step.map ρ), blank f.value⟩

/-- A left operand with its names changed and without its value. -/
def LeftOperand.outline (ρ : String → String) : LeftOperand → LeftOperand
  | path p => path (p.map (Step.map ρ))
  | fallback f => fallback (f.outline ρ)

/-- A right operand with its names changed and without its value. -/
def RightOperand.outline (ρ : String → String) : RightOperand → RightOperand
  | value v => value (blank v)
  | path p => path (p.map (Step.map ρ))

/-- A sum or a difference with its names changed and without its values. -/
def Arithmetic.outline (ρ : String → String) (a : Arithmetic) : Arithmetic :=
  ⟨a.left.outline ρ, a.op, a.right.outline ρ⟩

namespace UpdateTree

mutual

/-- An update with its names changed and without its values. -/
def outline (ρ : String → String) : UpdateTree → UpdateTree
  | [] => []
  | (name, action) :: rest => (ρ name, outlineAction ρ action) :: outline ρ rest

/-- An action with its names changed and without its values. -/
def outlineAction (ρ : String → String) : UpdateAction → UpdateAction
  | .assign value => .assign (blank value)
  | .remove => .remove
  | .nested entries => .nested (outline ρ entries)
  | .fallback f => .fallback (f.outline ρ)
  | .arithmetic a => .arithmetic (a.outline ρ)

end

end UpdateTree

/-- A test of a sort key without its values. -/
def SortTest.outline : SortTest → SortTest
  | eq value => eq (blank value)
  | lt value => lt (blank value)
  | le value => le (blank value)
  | gt value => gt (blank value)
  | ge value => ge (blank value)
  | beginsWith start => beginsWith (blank start)
  | between lower upper => between (blank lower) (blank upper)

/-- A key condition with its names changed and without its values. -/
def KeyCondition.outline (ρ : String → String) (key : KeyCondition) : KeyCondition :=
  ⟨ρ key.partitionKey, blank key.partition, key.sort.map (Prod.map ρ SortTest.outline)⟩

/-- A step with its names changed and without its values. -/
def RegistryStep.outline (ρ : String → String) : RegistryStep → RegistryStep
  | path p => path (p.map (Step.map ρ))
  | value v => value (blank v)
  | condition c => condition (c.outline ρ)
  | update tree => update (tree.outline ρ)
  | keyCondition key => keyCondition (key.outline ρ)
  | projection paths => projection (paths.map (List.map (Step.map ρ)))

/-! ### Values of expressions -/

/-- The values of a test. -/
def Predicate.literals : Predicate → List Json
  | present => []
  | absent => []
  | hasType tag => [.string tag]
  | beginsWith start => [start]
  | contains operand => [operand]
  | between lower upper => [lower, upper]
  | oneOf candidates => candidates
  | size comparator => comparator.toList.map Prod.snd

namespace Condition

mutual

/-- The values of a condition, from left to right. -/
def literals : Condition → List Json
  | compare comparator => comparator.toList.map Prod.snd
  | test predicate => predicate.literals
  | fields entries => literalsFields entries
  | all operands => literalsAll operands
  | any operands => literalsAll operands
  | not operands => literalsAll operands
  | list operands => literalsAll operands

/-- The values of fields. -/
def literalsFields : List (String × Condition) → List Json
  | [] => []
  | (_, condition) :: entries => literals condition ++ literalsFields entries

/-- The values of operands. -/
def literalsAll : List Condition → List Json
  | [] => []
  | operand :: operands => literals operand ++ literalsAll operands

end

end Condition

/-- The values of a left operand. -/
def LeftOperand.literals : LeftOperand → List Json
  | path _ => []
  | fallback f => [f.value]

/-- The values of a right operand. -/
def RightOperand.literals : RightOperand → List Json
  | value v => [v]
  | path _ => []

namespace UpdateTree

mutual

/-- The values of an update, from left to right. -/
def literals : UpdateTree → List Json
  | [] => []
  | (_, action) :: rest => literalsAction action ++ literals rest

/-- The values of an action. -/
def literalsAction : UpdateAction → List Json
  | .assign value => [value]
  | .remove => []
  | .nested entries => literals entries
  | .fallback f => [f.value]
  | .arithmetic a => a.left.literals ++ a.right.literals

end

end UpdateTree

/-- The values of a test of a sort key. -/
def SortTest.literals (test : SortTest) : List Json :=
  test.toCondition.literals

/-- The values of a key condition. -/
def KeyCondition.literals (key : KeyCondition) : List Json :=
  key.partition :: (key.sort.map fun sort => sort.2.literals).getD []

/-- The values of a step. -/
def RegistryStep.literals : RegistryStep → List Json
  | path _ => []
  | value v => [v]
  | condition c => c.literals
  | update tree => tree.literals
  | keyCondition key => key.literals
  | projection _ => []

/-! ### Drafts of outlines -/

/-- An error about changed names. -/
def ExpressionError.map (ρ : String → String) : ExpressionError → ExpressionError
  | emptyFields path => emptyFields (path.map (Step.map ρ))
  | emptyInList path => emptyInList (path.map (Step.map ρ))
  | other => other

@[simp] theorem ExpressionError.map_id (cause : ExpressionError) : cause.map id = cause := by
  cases cause <;> simp [map]

section Alike

variable {α α' β β' γ γ' : Type} {ρ : String → String}

/-- Two translations, the second one under changed names, end alike. -/
def Alike (ρ : String → String) (R : α → β → Prop) :
    Except ExpressionError α → Except ExpressionError β → Prop
  | .ok a, .ok b => R a b
  | .error cause, .error cause' => cause' = cause.map ρ
  | _, _ => False

variable {x : Except ExpressionError α} {x' : Except ExpressionError α'}
  {y : Except ExpressionError β} {y' : Except ExpressionError β'} {R : α → α' → Prop}
  {S : β → β' → Prop} {T : γ → γ' → Prop}

/-- What is made of translations that are alike is alike, when it is for what they are translated
to. -/
theorem Alike.map (h : Alike ρ R x x') {k : α → γ} {k' : α' → γ'}
    (hk : ∀ a a', R a a' → T (k a) (k' a')) :
    Alike ρ T (do return k (← x)) (do return k' (← x')) := by
  cases x <;> cases x'
  · exact h
  · exact h
  · exact h
  · exact hk _ _ h

/-- Two translations in a row are alike when both are. The second one is not begun when the first
one fails, and so it makes no difference then. -/
theorem Alike.map₂ (h : Alike ρ R x x') (h' : Alike ρ S y y') {k : α → β → γ}
    {k' : α' → β' → γ'} (hk : ∀ a a' b b', R a a' → S b b' → T (k a b) (k' a' b')) :
    Alike ρ T (do return k (← x) (← y)) (do return k' (← x') (← y')) := by
  cases x <;> cases x'
  · exact h
  · exact h.elim
  · exact h.elim
  · exact h'.map fun b b' hb => hk _ _ b b' h hb

/-- Translations that end like the same third one end alike. The third one is that of the outline,
which both expressions share. -/
theorem Alike.join {outline : (String → String) → α → β} {x x' : Except ExpressionError α}
    {y : Except ExpressionError α} (h : Alike ρ (fun a b => outline id b = outline ρ a) x y)
    (h' : Alike id (fun a b => outline id b = outline id a) x' y) :
    Alike ρ (fun a a' => outline id a' = outline ρ a) x x' := by
  cases y with
  | error cause =>
      cases x with
      | ok a => exact h.elim
      | error _ =>
          cases x' with
          | ok a' => exact h'.elim
          | error _ => exact (ExpressionError.map_id _).symm.trans (h'.symm.trans h)
  | ok b =>
      cases x with
      | error _ => exact h.elim
      | ok a =>
          cases x' with
          | error _ => exact h'.elim
          | ok a' => exact h'.symm.trans h

end Alike

/-- A clause with its names changed and without its values. -/
def Clause.outline (ρ : String → String) (clause : Clause String Json) : Clause String Json :=
  clause.map ρ blank

/-- A key condition with its names changed and without its values. -/
def KeyClause.outline (ρ : String → String) (key : KeyClause String Json) :
    KeyClause String Json :=
  key.map ρ blank

theorem Path.map_child (ρ : String → String) (path : Path) (name : String) :
    (path.child name).map (Step.map ρ) = Path.child (path.map (Step.map ρ)) (ρ name) := by
  simp [child]

variable (ρ : String → String)

/-- Comparisons are translated by their outlines. They cannot fail, so that this is an equation. -/
theorem Comparator.draft_outline (c : Comparator) (subject : Subject String) :
    (c.outline.draft (subject.map ρ)).outline id = (c.draft subject).outline ρ := by
  obtain ⟨⟨op, v⟩, rest⟩ := c
  simp [draft, outline, Clause.outline, Clause.map, Prod.map_comp_map, blank]

/-- A test is translated by its outline. Whether a membership test has candidates can be seen in its
outline. -/
theorem Predicate.draft_outline (path : Path) (predicate : Predicate) :
    Alike ρ (fun d d' => d'.outline id = d.outline ρ) (predicate.draft path)
      (predicate.outline.draft (path.map (Step.map ρ))) := by
  cases predicate with
  | oneOf candidates =>
      cases candidates with
      | nil => rfl
      | cons candidate others => simp [draft, outline, Alike, Clause.outline, Clause.map, blank]
  | size comparator => exact comparator.draft_outline ρ (.size path)
  | _ => simp [draft, outline, Alike, Clause.outline, Clause.map, blank]

namespace Condition

/-- The same clause joined with the same clauses has the same outline, whatever operator joins them.
-/
theorem outline_joinAll {op : LogicalOp} {first first' : Clause String Json}
    {rest rest' : List (Clause String Json)} (h : first'.outline id = first.outline ρ)
    (h' : rest'.map (Clause.outline id) = rest.map (Clause.outline ρ)) :
    (Clause.joinAll op first' rest').outline id = (Clause.joinAll op first rest).outline ρ := by
  rw [Clause.outline, Clause.map_joinAll, Clause.outline, Clause.map_joinAll]
  exact congrArg₂ (Clause.joinAll op) h h'

mutual

/-- A condition is translated by its outline. The induction is on the condition, together with its
fields and operands. -/
theorem draft_outline (path : Path) (op : LogicalOp) (condition : Condition) :
    Alike ρ (fun d d' => d'.outline id = d.outline ρ) (condition.draft path op)
      ((condition.outline ρ).draft (path.map (Step.map ρ)) op) := by
  cases condition with
  | compare comparator =>
      rw [outline, draft, draft, List.isEmpty_map]
      split
      · rfl
      · exact comparator.draft_outline ρ (.itself path)
  | test predicate =>
      rw [outline, draft, draft, List.isEmpty_map]
      split
      · cases predicate <;> rfl
      · exact predicate.draft_outline ρ path
  | fields entries =>
      cases entries with
      | nil => rfl
      | cons entry entries =>
          obtain ⟨name, condition⟩ := entry
          have first := draft_outline (path.child name) .and condition
          rw [Path.map_child] at first
          exact first.map₂ (draftFields_outline path entries) fun _ _ _ _ => outline_joinAll ρ
  | all operands =>
      exact (draftOperands_outline path .and .all operands).map fun _ _ h =>
        outline_joinAll ρ h.1 h.2
  | any operands =>
      exact (draftOperands_outline path .or .any operands).map fun _ _ h =>
        outline_joinAll ρ h.1 h.2
  | not operands =>
      exact (draftOperands_outline path .and .not operands).map fun _ _ h =>
        congrArg Clause.negate (outline_joinAll ρ h.1 h.2)
  | list operands =>
      exact (draftOperands_outline path op .list operands).map fun _ _ h =>
        outline_joinAll ρ h.1 h.2

/-- Fields are translated by their outlines, each at the path of its changed name. -/
theorem draftFields_outline (path : Path) (entries : List (String × Condition)) :
    Alike ρ (fun d d' => d'.map (Clause.outline id) = d.map (Clause.outline ρ))
      (draftFields path entries)
      (draftFields (path.map (Step.map ρ)) (outlineFields ρ entries)) := by
  cases entries with
  | nil => rfl
  | cons entry entries =>
      obtain ⟨name, condition⟩ := entry
      have first := draft_outline (path.child name) .and condition
      rw [Path.map_child] at first
      exact first.map₂ (draftFields_outline path entries) fun _ _ _ _ => congrArg₂ List.cons

/-- The operands of a combinator are translated by their outlines; there are some or there are none
in both. -/
theorem draftOperands_outline (path : Path) (op : LogicalOp) (combinator : Combinator)
    (operands : List Condition) :
    Alike ρ
      (fun d d' => d'.1.outline id = d.1.outline ρ ∧
        d'.2.map (Clause.outline id) = d.2.map (Clause.outline ρ))
      (draftOperands path op combinator operands)
      (draftOperands (path.map (Step.map ρ)) op combinator (outlineAll ρ operands)) := by
  cases operands with
  | nil => rfl
  | cons operand operands =>
      exact (draft_outline path op operand).map₂ (draftRest_outline path op operands)
        fun _ _ _ _ => And.intro

/-- Further operands are translated by their outlines, all at the same path. -/
theorem draftRest_outline (path : Path) (op : LogicalOp) (operands : List Condition) :
    Alike ρ (fun d d' => d'.map (Clause.outline id) = d.map (Clause.outline ρ))
      (draftRest path op operands)
      (draftRest (path.map (Step.map ρ)) op (outlineAll ρ operands)) := by
  cases operands with
  | nil => rfl
  | cons operand operands =>
      exact (draft_outline path op operand).map₂ (draftRest_outline path op operands)
        fun _ _ _ _ => congrArg₂ List.cons

end

end Condition

namespace UpdateTree

/-- A sum or a difference is translated by its outline, into the value without its values. -/
theorem draft_outlineArithmetic (a : Arithmetic) :
    (a.outline ρ).draft = a.draft.map ρ blank := by
  obtain ⟨left, op, right⟩ := a
  cases left <;> cases right <;> rfl

mutual

/-- An update is translated by its outline: its changes are those of the outline with other names
and values. -/
theorem changes_outline (path : Path) (tree : UpdateTree) :
    changes (path.map (Step.map ρ)) (tree.outline ρ) =
      (changes path tree).map (Change.map ρ blank) := by
  cases tree with
  | nil => rfl
  | cons entry rest =>
      obtain ⟨name, action⟩ := entry
      rw [outline, changes, changes, List.map_append, ← Path.map_child,
        changesOfAction_outline (path.child name) action, changes_outline path rest]

/-- An action is translated by its outline, at the target with its names changed. -/
theorem changesOfAction_outline (target : Path) (action : UpdateAction) :
    changesOfAction (target.map (Step.map ρ)) (outlineAction ρ action) =
      (changesOfAction target action).map (Change.map ρ blank) := by
  cases action with
  | nested entries => exact changes_outline target entries
  | arithmetic a =>
      rw [outlineAction, changesOfAction, changesOfAction, draft_outlineArithmetic]
      rfl
  | _ => rfl

end

/-- Whether an update has a change can be seen in its outline. -/
theorem draft_outline (tree : UpdateTree) :
    Alike ρ (fun d d' => d'.map (Change.map id blank) = d.map (Change.map ρ blank)) tree.draft
      (tree.outline ρ).draft := by
  have changes := changes_outline ρ [] tree
  rw [List.map_nil] at changes
  rw [draft, draft, changes, List.isEmpty_map]
  split
  · rfl
  · simp only [Alike, List.map_map, Function.comp_def, Change.map_map]
    rfl

end UpdateTree

/-- A key condition is translated by its outline, with a test of the sort key and without one. -/
theorem KeyCondition.draft_outline (key : KeyCondition) :
    Alike ρ (fun d d' => d'.outline id = d.outline ρ) key.draft (key.outline ρ).draft := by
  obtain ⟨partitionKey, partition, sort⟩ := key
  cases sort with
  | none => rfl
  | some sort =>
      obtain ⟨name, test⟩ := sort
      have clause := (Condition.field name test.toCondition).draft_outline ρ [] .and
      -- the test of a sort key is translated as a condition on that key
      have test : (Condition.field name test.toCondition).outline ρ =
          Condition.field (ρ name) test.outline.toCondition := by
        cases test <;> rfl
      rw [test] at clause
      apply clause.map
      intro d d' h
      rw [KeyClause.outline, KeyClause.outline, KeyClause.map, KeyClause.map, Option.map_some,
        Option.map_some]
      exact congrArg (fun clause => KeyClause.mk _ _ (some clause)) h

/-! ### Values of drafts -/

/-- A clause has the values of its test, in the order in which the test has them. -/
theorem Predicate.literals_draft {path : Path} {predicate : Predicate}
    {clause : Clause String Json} (h : predicate.draft path = .ok clause) :
    clause.literals = predicate.literals := by
  cases predicate with
  | oneOf candidates =>
      cases candidates <;> cases h
      rfl
  | _ =>
      cases h
      rfl

namespace Condition

mutual

/-- A clause has the values of its condition. Their order is that of the condition, and it becomes
that of the placeholders. -/
theorem literals_draft {path : Path} {op : LogicalOp} {condition : Condition}
    {clause : Clause String Json} (h : condition.draft path op = .ok clause) :
    clause.literals = condition.literals := by
  cases condition with
  | compare comparator =>
      rw [draft] at h
      split at h <;> cases h
      rfl
  | test predicate =>
      rw [draft] at h
      split at h
      · cases h
      · exact predicate.literals_draft h
  | fields entries =>
      cases entries with
      | nil => cases h
      | cons entry entries =>
          obtain ⟨name, condition⟩ := entry
          obtain ⟨first, hfirst, h⟩ := exists_of_except_bind h
          obtain ⟨rest, hrest, h⟩ := exists_of_except_bind h
          cases h
          rw [Clause.literals_joinAll, literals_draft hfirst, literals_draftFields hrest]
          rfl
  | all operands =>
      obtain ⟨both, hboth, h⟩ := exists_of_except_bind h
      cases h
      rw [Clause.literals_joinAll, literals_draftOperands hboth]
      rfl
  | any operands =>
      obtain ⟨both, hboth, h⟩ := exists_of_except_bind h
      cases h
      rw [Clause.literals_joinAll, literals_draftOperands hboth]
      rfl
  | not operands =>
      obtain ⟨both, hboth, h⟩ := exists_of_except_bind h
      cases h
      rw [Clause.literals, Clause.literals_joinAll, literals_draftOperands hboth]
      rfl
  | list operands =>
      obtain ⟨both, hboth, h⟩ := exists_of_except_bind h
      cases h
      rw [Clause.literals_joinAll, literals_draftOperands hboth]
      rfl

/-- Clauses of fields have the values of the fields, one field after the other. -/
theorem literals_draftFields {path : Path} {entries : List (String × Condition)}
    {clauses : List (Clause String Json)} (h : draftFields path entries = .ok clauses) :
    clauses.flatMap Clause.literals = literalsFields entries := by
  cases entries with
  | nil =>
      cases h
      rfl
  | cons entry entries =>
      obtain ⟨name, condition⟩ := entry
      obtain ⟨first, hfirst, h⟩ := exists_of_except_bind h
      obtain ⟨rest, hrest, h⟩ := exists_of_except_bind h
      cases h
      rw [List.flatMap_cons, literals_draft hfirst, literals_draftFields hrest]
      rfl

/-- Clauses of operands have the values of the operands, those of the first operand before the
others. -/
theorem literals_draftOperands {path : Path} {op : LogicalOp} {combinator : Combinator}
    {operands : List Condition} {clauses : Clause String Json × List (Clause String Json)}
    (h : draftOperands path op combinator operands = .ok clauses) :
    clauses.1.literals ++ clauses.2.flatMap Clause.literals = literalsAll operands := by
  cases operands with
  | nil => cases h
  | cons operand operands =>
      obtain ⟨first, hfirst, h⟩ := exists_of_except_bind h
      obtain ⟨rest, hrest, h⟩ := exists_of_except_bind h
      cases h
      rw [literals_draft hfirst, literals_draftRest hrest]
      rfl

/-- Clauses of further operands have the values of these, one operand after the other. -/
theorem literals_draftRest {path : Path} {op : LogicalOp} {operands : List Condition}
    {clauses : List (Clause String Json)} (h : draftRest path op operands = .ok clauses) :
    clauses.flatMap Clause.literals = literalsAll operands := by
  cases operands with
  | nil =>
      cases h
      rfl
  | cons operand operands =>
      obtain ⟨first, hfirst, h⟩ := exists_of_except_bind h
      obtain ⟨rest, hrest, h⟩ := exists_of_except_bind h
      cases h
      rw [List.flatMap_cons, literals_draft hfirst, literals_draftRest hrest]
      rfl

end

end Condition

namespace UpdateTree

mutual

/-- Changes have the values of their update, although removals lie between assignments. -/
theorem literals_changes (path : Path) (tree : UpdateTree) :
    (changes path tree).flatMap Change.literals = tree.literals := by
  cases tree with
  | nil => rfl
  | cons entry rest =>
      obtain ⟨name, action⟩ := entry
      rw [changes, List.flatMap_append, literals_changesOfAction (path.child name) action,
        literals_changes path rest, literals]

/-- Changes of an action have the values of the action. -/
theorem literals_changesOfAction (target : Path) (action : UpdateAction) :
    (changesOfAction target action).flatMap Change.literals = literalsAction action := by
  cases action with
  | nested entries => exact literals_changes target entries
  | arithmetic a =>
      obtain ⟨left, op, right⟩ := a
      cases left <;> cases right <;> rfl
  | _ => rfl

end

/-- An update that is not refused keeps the values of its tree. -/
theorem literals_draft {tree : UpdateTree} {drafted : List (Change String Json)}
    (h : tree.draft = .ok drafted) : drafted.flatMap Change.literals = tree.literals := by
  rw [draft] at h
  split at h <;> cases h
  exact literals_changes [] tree

end UpdateTree

/-- The expression of a key condition has the values of the key condition. -/
theorem KeyCondition.literals_draft {key : KeyCondition} {clause : KeyClause String Json}
    (h : key.draft = .ok clause) : clause.literals = key.literals := by
  obtain ⟨partitionKey, partition, sort⟩ := key
  cases sort with
  | none =>
      cases h
      rfl
  | some sort =>
      obtain ⟨name, test⟩ := sort
      obtain ⟨sort, hsort, h⟩ := exists_of_except_bind h
      cases h
      show partition :: sort.literals = partition :: test.literals
      rw [Condition.literals_draft hsort]
      exact congrArg (partition :: ·) (List.append_nil _)

end DocumentTable
