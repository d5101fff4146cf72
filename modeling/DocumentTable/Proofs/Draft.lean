import DocumentTable.KeyCondition
import DocumentTable.Proofs.Except
import DocumentTable.Proofs.Placement
import DocumentTable.Update.Clause

/-!
# Drafts

Compiling does two things at once: it translates, which may fail, and it gives out placeholders. A
draft is the translation alone, an expression over the names and the values themselves. Compiling is
drafting and then placing the draft.

## Main definitions

* `Condition.draft`, `UpdateTree.draft`, `KeyCondition.draft`: the expression over names and values
* `Follows`: a compilation is a draft and then the placing of the draft

## Main results

* `Condition.follows_compile`, `UpdateTree.follows_compile`, `KeyCondition.follows_compile`

## Design notes

A compilation that fails may have given out placeholders before. Nothing is said about which, only
that the registry has grown.
-/

namespace DocumentTable

open Registry

/-! ### Conditions -/

/-- The clause of comparisons of a subject. -/
def Comparator.draft (c : Comparator) (subject : Subject String) : Clause String Json :=
  .compare subject c.first c.rest

/-- The clause of a test of the attribute at a path. -/
def Predicate.draft (path : Path) : Predicate → Except ExpressionError (Clause String Json)
  | present => .ok (.call .attributeExists path none)
  | absent => .ok (.call .attributeNotExists path none)
  | hasType tag => .ok (.call .attributeType path (some (.string tag)))
  | beginsWith start => .ok (.call .beginsWith path (some start))
  | contains operand => .ok (.call .contains path (some operand))
  | between lower upper => .ok (.between path lower upper)
  | oneOf [] => .error (.emptyInList path)
  | oneOf (candidate :: others) => .ok (.oneOf path candidate others)
  | size comparator => .ok (comparator.draft (.size path))

namespace Condition

mutual

/-- The clause of a condition at a path, under the operator of the enclosing combinator. -/
def draft (path : Path) (op : LogicalOp) :
    Condition → Except ExpressionError (Clause String Json)
  | compare comparator =>
    if path.isEmpty then .error (.leafWithoutPath "comparator")
    else .ok (comparator.draft (.itself path))
  | test predicate =>
    if path.isEmpty then .error (.leafWithoutPath predicate.name)
    else predicate.draft path
  | fields [] => .error (.emptyFields path)
  | fields ((name, condition) :: entries) => do
    let first ← draft (path.child name) .and condition
    let rest ← draftFields path entries
    return .joinAll op first rest
  | all operands => do
    let (first, rest) ← draftOperands path .and .all operands
    return .joinAll .and first rest
  | any operands => do
    let (first, rest) ← draftOperands path .or .any operands
    return .joinAll .or first rest
  | not operands => do
    let (first, rest) ← draftOperands path .and .not operands
    return .negate (.joinAll .and first rest)
  | list operands => do
    let (first, rest) ← draftOperands path op .list operands
    return .joinAll op first rest

/-- The clauses of fields. -/
def draftFields (path : Path) :
    List (String × Condition) → Except ExpressionError (List (Clause String Json))
  | [] => return []
  | (name, condition) :: entries => do
    let clause ← draft (path.child name) .and condition
    return clause :: (← draftFields path entries)

/-- The clauses of the operands of a combinator, of which there is at least one. -/
def draftOperands (path : Path) (op : LogicalOp) (combinator : Combinator) :
    List Condition → Except ExpressionError (Clause String Json × List (Clause String Json))
  | [] => throw (.emptyCombinator combinator)
  | operand :: operands => do
    let first ← draft path op operand
    return (first, ← draftRest path op operands)

/-- The clauses of operands. -/
def draftRest (path : Path) (op : LogicalOp) :
    List Condition → Except ExpressionError (List (Clause String Json))
  | [] => return []
  | operand :: operands => do
    let clause ← draft path op operand
    return clause :: (← draftRest path op operands)

end

end Condition

/-! ### Updates and key conditions -/

/-- The operand of a fallback. -/
def Fallback.draft (f : Fallback) : Operand String Json :=
  .fallback f.path f.value

/-- What is added to, or subtracted from. -/
def LeftOperand.draft : LeftOperand → Operand String Json
  | path p => .path p
  | fallback f => f.draft

/-- What is added or subtracted. -/
def RightOperand.draft : RightOperand → Operand String Json
  | value v => .value v
  | path p => .path p

/-- The value of a sum or a difference. -/
def Arithmetic.draft (a : Arithmetic) : AssignedValue String Json :=
  .arithmetic a.left.draft a.op a.right.draft

namespace UpdateTree

mutual

/-- The changes of the actions for attributes inside a path, in order. -/
def changes (path : Path) : UpdateTree → List (Change String Json)
  | [] => []
  | (name, action) :: rest => changesOfAction (path.child name) action ++ changes path rest

/-- The changes of the action for one attribute. -/
def changesOfAction (target : Path) : UpdateAction → List (Change String Json)
  | .nested entries => changes target entries
  | .remove => [.remove target]
  | .assign value => [.set ⟨target, .operand (.value value)⟩]
  | .fallback fallback => [.set ⟨target, .operand fallback.draft⟩]
  | .arithmetic arithmetic => [.set ⟨target, arithmetic.draft⟩]

end

/-- The changes of a tree, which must change something. -/
def draft (tree : UpdateTree) : Except ExpressionError (List (Change String Json)) :=
  if (changes [] tree).isEmpty then .error .emptyUpdate else .ok (changes [] tree)

end UpdateTree

/-- The expression of a key condition. -/
def KeyCondition.draft (key : KeyCondition) : Except ExpressionError (KeyClause String Json) :=
  match key.sort with
  | none => .ok ⟨Path.ofName key.partitionKey, key.partition, none⟩
  | some (sortKey, test) => do
    let sort ← (Condition.field sortKey test.toCondition).draft [] .and
    return ⟨Path.ofName key.partitionKey, key.partition, some sort⟩

/-! ### Following a draft -/

section Follows

variable {α β γ δ ε ζ : Type}

/-- Behind a success a sequence goes on with the registry that was left. -/
theorem run_bind_ok {x : Allocation α} {f : α → Allocation β} {r s : Registry} {a : α}
    (h : x.run.run r = (.ok a, s)) : (x >>= f).run.run r = (f a).run.run s := by
  show ExceptT.bindCont f (x.run.run r).1 (x.run.run r).2 = _
  rw [h]
  rfl

/-- A sequence ends at a failure, and leaves the registry of that moment. -/
theorem run_bind_error {x : Allocation α} {f : α → Allocation β} {r : Registry}
    {cause : ExpressionError} (h : (x.run.run r).1 = .error cause) :
    (x >>= f).run.run r = (.error cause, (x.run.run r).2) := by
  show ExceptT.bindCont f (x.run.run r).1 (x.run.run r).2 = _
  rw [h]
  rfl

/-- A sequence that succeeds is a success of its first part and of the rest, with a registry between
them. -/
theorem exists_of_run_bind {x : Allocation α} {f : α → Allocation β} {r s : Registry} {b : β}
    (h : (x >>= f).run.run r = (.ok b, s)) :
    ∃ a middle, x.run.run r = (.ok a, middle) ∧ (f a).run.run middle = (.ok b, s) := by
  generalize first : x.run.run r = outcome
  obtain ⟨result, middle⟩ := outcome
  cases result with
  | error cause =>
      rw [run_bind_error (congrArg Prod.fst first)] at h
      cases h
  | ok a =>
      rw [run_bind_ok first] at h
      exact ⟨a, middle, rfl, h⟩

/-- A compilation is a draft and then the placing of the draft. -/
def Follows (x : Allocation α) (draft : Except ExpressionError δ)
    (place : δ → StateM Registry α) : Prop :=
  match draft with
  | .ok d => ∀ r, x.run.run r = (.ok ((place d).run r).1, ((place d).run r).2)
  | .error cause => ∀ r, (x.run.run r).1 = .error cause ∧ Grows r (x.run.run r).2

/-- A fault that is noticed at once is a fault of the draft, and nothing is placed for it. -/
theorem Follows.throw (cause : ExpressionError) (place : δ → StateM Registry α) :
    Follows (throw cause) (.error cause) place :=
  fun r => ⟨rfl, .refl r⟩

/-- A computation that does not fail needs no draft. It is placed as it is. -/
theorem Follows.lift (x : StateM Registry α) :
    Follows (liftM x : Allocation α) (.ok ()) fun _ => x :=
  fun _ => rfl

variable {x : Allocation α} {y : Allocation β} {draft : Except ExpressionError δ}
  {draft' : Except ExpressionError ε} {place : δ → StateM Registry α}
  {place' : ε → StateM Registry β}

/-- What is made of a compilation is made of its draft, when placing it whole is the same as placing
its part. -/
theorem Follows.map {k : α → γ} {k' : δ → ζ} {whole : ζ → StateM Registry γ}
    (h : Follows x draft place) (hwhole : ∀ d, whole (k' d) = k <$> place d) :
    Follows (do return k (← x)) (do return k' (← draft)) whole := by
  cases draft with
  | error cause =>
      intro r
      rw [run_bind_error (h r).1]
      exact ⟨rfl, (h r).2⟩
  | ok d =>
      intro r
      rw [run_bind_ok (h r), hwhole]
      rfl

/-- What is made of two compilations is made of their drafts. The first one has been placed before
the second one fails, which is why the registry may have grown by then. -/
theorem Follows.map₂ {k : α → β → γ} {k' : δ → ε → ζ} {whole : ζ → StateM Registry γ}
    (h : Follows x draft place) (h' : Follows y draft' place')
    (grows : ∀ d r, Grows r ((place d).run r).2)
    (hwhole : ∀ d e, whole (k' d e) = do return k (← place d) (← place' e)) :
    Follows (do return k (← x) (← y)) (do return k' (← draft) (← draft')) whole := by
  cases draft with
  | error cause =>
      intro r
      rw [run_bind_error (h r).1]
      exact ⟨rfl, (h r).2⟩
  | ok d =>
      cases draft' with
      | error cause =>
          intro r
          -- the first part has given out its placeholders when the second one fails
          obtain ⟨result, more⟩ := h' ((place d).run r).2
          rw [run_bind_ok (h r), run_bind_error result]
          exact ⟨rfl, (grows d r).trans more⟩
      | ok e =>
          intro r
          rw [run_bind_ok (h r), run_bind_ok (h' _), hwhole]
          rfl

end Follows

/-! ### Compiling is drafting and then placing -/

theorem Clause.grows_place (clause : Clause String Json) (r : Registry) :
    Grows r (clause.place.run r).2 := by
  obtain ⟨_, _, _, placed⟩ := clause.exists_entries r
  exact placed.grows

/-- Compiling a test is drafting its clause and then placing the clause. -/
theorem Predicate.follows_place (path : Path) (predicate : Predicate) :
    Follows (predicate.place path) (predicate.draft path) Clause.place := by
  cases predicate with
  | oneOf candidates =>
      cases candidates with
      | nil =>
          intro r
          -- the path is placed before the list is looked at
          obtain ⟨_, _, _, placed⟩ := exists_entries_placePath path r
          exact ⟨rfl, placed.grows⟩
      | cons candidate others => exact fun r => rfl
  | _ => exact fun r => rfl

namespace Condition

/-- A pair of clauses with placeholders, as combinators have their operands. -/
private def placeCons (clauses : Clause String Json × List (Clause String Json)) :
    StateM Registry (PlacedClause × List PlacedClause) := do
  return (← clauses.1.place, ← Clause.placeAll clauses.2)

mutual

/-- Compiling a condition at a path is drafting its clause and then placing it. The induction is on
the condition, together with its fields and operands. -/
theorem follows_place (path : Path) (op : LogicalOp) (condition : Condition) :
    Follows (condition.place path op) (condition.draft path op) Clause.place := by
  cases condition with
  | compare comparator =>
      rw [place, draft]
      split
      · exact .throw _ _
      · exact fun r => rfl
  | test predicate =>
      rw [place, draft]
      split
      · exact .throw _ _
      · exact predicate.follows_place path
  | fields entries =>
      cases entries with
      | nil => exact .throw _ _
      | cons entry entries =>
          obtain ⟨name, condition⟩ := entry
          have first := follows_place (path.child name) .and condition
          exact first.map₂ (follows_placeFields path entries) Clause.grows_place
            (Clause.place_joinAll op)
  | all operands =>
      exact (follows_placeOperands path .and .all operands).map fun d => d.1.place_joinAll .and d.2
  | any operands =>
      exact (follows_placeOperands path .or .any operands).map fun d => d.1.place_joinAll .or d.2
  | not operands =>
      apply (follows_placeOperands path .and .not operands).map
      intro d
      rw [Clause.place, d.1.place_joinAll .and d.2]
      rfl
  | list operands =>
      exact (follows_placeOperands path op .list operands).map fun d => d.1.place_joinAll op d.2

theorem follows_placeFields (path : Path) (entries : List (String × Condition)) :
    Follows (placeFields path entries) (draftFields path entries) Clause.placeAll := by
  cases entries with
  | nil => exact fun r => rfl
  | cons entry entries =>
      obtain ⟨name, condition⟩ := entry
      exact (follows_place (path.child name) .and condition).map₂ (follows_placeFields path entries)
        Clause.grows_place fun _ _ => rfl

theorem follows_placeOperands (path : Path) (op : LogicalOp) (combinator : Combinator)
    (operands : List Condition) :
    Follows (placeOperands path op combinator operands)
      (draftOperands path op combinator operands) placeCons := by
  cases operands with
  | nil => exact .throw _ _
  | cons operand operands =>
      exact (follows_place path op operand).map₂ (follows_placeRest path op operands)
        Clause.grows_place fun _ _ => rfl

theorem follows_placeRest (path : Path) (op : LogicalOp) (operands : List Condition) :
    Follows (placeRest path op operands) (draftRest path op operands) Clause.placeAll := by
  cases operands with
  | nil => exact fun r => rfl
  | cons operand operands =>
      exact (follows_place path op operand).map₂ (follows_placeRest path op operands)
        Clause.grows_place fun _ _ => rfl

end

/-- Compiling a condition is drafting its clause and then placing the clause. What can fail is thus
apart from what gives out placeholders. -/
theorem follows_compile (condition : Condition) :
    Follows condition.compile (condition.draft [] .and) Clause.place :=
  condition.follows_place [] .and

end Condition

/-- An update with placeholders: the clauses of its changes. -/
def UpdateClauses.place (changes : List (Change String Json)) : StateM Registry PlacedUpdate := do
  return .ofChanges (← Change.placeAll changes)

theorem UpdateClauses.grows_place (changes : List (Change String Json)) (r : Registry) :
    Grows r ((UpdateClauses.place changes).run r).2 := by
  obtain ⟨_, _, _, placed⟩ := Change.exists_entries_placeAll changes r
  exact placed.grows

namespace UpdateTree

mutual

/-- Walking over a tree gives its changes their placeholders, one after the other, by induction on
the tree. -/
theorem walk_eq (path : Path) (tree : UpdateTree) :
    walk path tree = UpdateClauses.place (changes path tree) := by
  cases tree with
  | nil => rfl
  | cons entry rest =>
      obtain ⟨name, action⟩ := entry
      rw [walk, changes, walkAction_eq, walk_eq path rest, UpdateClauses.place,
        UpdateClauses.place, UpdateClauses.place, Change.placeAll_append]
      funext r
      exact congrArg (·, _) (UpdateClauses.ofChanges_append _ _).symm

theorem walkAction_eq (target : Path) (action : UpdateAction) :
    walkAction target action = UpdateClauses.place (changesOfAction target action) := by
  cases action with
  | nested entries => exact walk_eq target entries
  | arithmetic a =>
      obtain ⟨left, op, right⟩ := a
      cases left <;> cases right <;> rfl
  | _ => rfl

end

/-- The clauses of changes are empty only if there are no changes, since each change is an
assignment or a removal. -/
theorem isEmpty_place (changes : List (Change String Json)) (r : Registry) :
    ((UpdateClauses.place changes).run r).1.isEmpty = changes.isEmpty := by
  cases changes with
  | nil => rfl
  | cons change rest =>
      cases change with
      | set a => rfl
      | remove target => exact Bool.and_false _

/-- Compiling an update is drafting its changes and then placing the changes. Only an update without
changes fails. -/
theorem follows_compile (tree : UpdateTree) :
    Follows tree.compile tree.draft UpdateClauses.place := by
  -- whether there is anything to change is asked after the tree was walked through
  have run : ∀ r, tree.compile.run.run r =
      if ((UpdateClauses.place (changes [] tree)).run r).1.isEmpty then
        (.error .emptyUpdate, ((UpdateClauses.place (changes [] tree)).run r).2)
      else
        (.ok ((UpdateClauses.place (changes [] tree)).run r).1,
          ((UpdateClauses.place (changes [] tree)).run r).2) := by
    intro r
    rw [compile, walk_eq, run_bind_ok (Follows.lift (UpdateClauses.place (changes [] tree)) r)]
    cases ((UpdateClauses.place (changes [] tree)).run r).1.isEmpty <;> rfl
  rw [draft]
  split
  · next empty =>
      intro r
      rw [run, isEmpty_place, if_pos empty]
      exact ⟨rfl, UpdateClauses.grows_place _ r⟩
  · next nonempty =>
      intro r
      rw [run, isEmpty_place, if_neg nonempty]

end UpdateTree

/-- Compiling a key condition is drafting its expression and then placing the expression, the test
of the sort key included. -/
theorem KeyCondition.follows_compile (key : KeyCondition) :
    Follows key.compile key.draft KeyClause.place := by
  obtain ⟨partitionKey, partition, sort⟩ := key
  cases sort with
  | none => exact fun r => rfl
  | some sort =>
      obtain ⟨sortKey, test⟩ := sort
      let first : StateM Registry (PlacedPath × ValuePlaceholder) := do
        let name ← placePath (Path.ofName partitionKey)
        return (name, ← placeValue partition)
      have grows : ∀ r, Grows r (first.run r).2 := by
        intro r
        obtain ⟨_, _, _, placed⟩ := exists_entries_placePath (Path.ofName partitionKey) r
        exact .value _ placed.grows
      have whole : Follows
          (do
            let key ← (liftM first : Allocation _)
            return KeyClause.mk key.1 key.2 (some (← (Condition.field sortKey _).compile)))
          (do
            let _ ← .ok ()
            let sort ← (Condition.field sortKey test.toCondition).draft [] .and
            return KeyClause.mk (Path.ofName partitionKey) partition (some sort))
          KeyClause.place :=
        (Follows.lift first).map₂ (Condition.follows_compile _) (fun _ => grows) fun _ _ => rfl
      exact whole

end DocumentTable
