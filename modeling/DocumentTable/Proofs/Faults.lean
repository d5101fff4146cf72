import DocumentTable.Proofs.Outline

/-!
# Faults of conditions

A condition may be malformed in several places at once. Compiling it reports the first of them,
where a node comes before the nodes inside it and these come from left to right. What has been given
out by then is what the leaves before that place ask for.

## Main definitions

* `Condition.visits`: the nodes of a condition in the order in which they are looked at
* `Visit.fault?`: what is wrong with a node, if anything
* `Referent`, `Visit.referents`: what placeholders stand for, and those that a leaf asks for
* `Registry.extend`: a registry after placeholders were asked for
* `walk`, `Walks`: a walk over nodes that ends at the first fault

## Main results

* `Condition.compile_fails_at_first_fault`: when compiling fails, with which error, and what becomes
  of the registry

## Design notes

A membership test without candidates is the only node that gives out placeholders and then fails,
since its path is placed before its candidates are looked at.
-/

namespace DocumentTable

open Registry

/-! ### Nodes and their faults -/

/-- A node of a condition and the path of the attribute that it is about. -/
structure Visit where
  path : Path
  node : Condition

/-- What is wrong with a test of the attribute at a path. -/
def Predicate.fault? (path : Path) : Predicate → Option ExpressionError
  | oneOf [] => some (.emptyInList path)
  | _ => none

/-- What is wrong with the operands of a combinator, whatever is inside them. -/
def Combinator.fault? (combinator : Combinator) : List Condition → Option ExpressionError
  | [] => some (.emptyCombinator combinator)
  | _ :: _ => none

/-- What is wrong with a node, whatever is inside it. -/
def Visit.fault? : Visit → Option ExpressionError
  | ⟨path, .compare _⟩ => if path.isEmpty then some (.leafWithoutPath "comparator") else none
  | ⟨path, .test predicate⟩ =>
    if path.isEmpty then some (.leafWithoutPath predicate.name) else predicate.fault? path
  | ⟨path, .fields entries⟩ => if entries.isEmpty then some (.emptyFields path) else none
  | ⟨_, .all operands⟩ => Combinator.all.fault? operands
  | ⟨_, .any operands⟩ => Combinator.any.fault? operands
  | ⟨_, .not operands⟩ => Combinator.not.fault? operands
  | ⟨_, .list operands⟩ => Combinator.list.fault? operands

namespace Condition

mutual

/-- The nodes of a condition at a path, each before those inside it, from left to right. -/
def visits (path : Path) : Condition → List Visit
  | compare comparator => [⟨path, compare comparator⟩]
  | test predicate => [⟨path, test predicate⟩]
  | fields entries => ⟨path, fields entries⟩ :: visitsFields path entries
  | all operands => ⟨path, all operands⟩ :: visitsAll path operands
  | any operands => ⟨path, any operands⟩ :: visitsAll path operands
  | not operands => ⟨path, not operands⟩ :: visitsAll path operands
  | list operands => ⟨path, list operands⟩ :: visitsAll path operands

/-- The nodes of fields. -/
def visitsFields (path : Path) : List (String × Condition) → List Visit
  | [] => []
  | (name, condition) :: entries => visits (path.child name) condition ++ visitsFields path entries

/-- The nodes of operands. -/
def visitsAll (path : Path) : List Condition → List Visit
  | [] => []
  | operand :: operands => visits path operand ++ visitsAll path operands

end

end Condition

/-! ### What is given out -/

/-- What a placeholder stands for. -/
inductive Referent where
  | name (name : String)
  | value (value : Json)
  deriving DecidableEq

/-- The names on a path. -/
def Path.referents (path : Path) : List Referent :=
  (pathNames path).map .name

/-- What a leaf asks placeholders for, from first to last. -/
def Visit.referents : Visit → List Referent
  | ⟨path, .compare comparator⟩ =>
    path.referents ++ comparator.toList.map fun comparison => .value comparison.2
  | ⟨path, .test predicate⟩ => path.referents ++ predicate.literals.map .value
  | _ => []

/-- What a node has asked placeholders for when a fault of it is noticed. -/
def ExpressionError.referents : ExpressionError → List Referent
  | emptyInList path => path.referents
  | _ => []

namespace Registry

/-- The registry after a placeholder was asked for. A name that has one keeps it. -/
def ask (r : Registry) : Referent → Registry
  | .name n => if n ∈ r.names.map Prod.snd then r else r.addName n
  | .value v => r.addValue v

/-- The registry after placeholders were asked for, one after the other. -/
def extend (r : Registry) (referents : List Referent) : Registry :=
  referents.foldl ask r

@[simp] theorem extend_nil (r : Registry) : r.extend [] = r := rfl

@[simp] theorem extend_cons (r : Registry) (a : Referent) (l : List Referent) :
    r.extend (a :: l) = (r.ask a).extend l := rfl

/-- Asking for two lists of placeholders, one behind the other, is asking for both at once. -/
@[simp] theorem extend_append (r : Registry) (l l' : List Referent) :
    r.extend (l ++ l') = (r.extend l).extend l' :=
  List.foldl_append

/-- Placing a name leaves what asking for it does, whether it is there already or not. -/
theorem run_placeName_snd (n : String) (r : Registry) :
    ((placeName n).run r).2 = r.ask (.name n) := by
  rcases run_placeName n r with ⟨p, mem, run⟩ | ⟨fresh, run⟩
  · rw [run, ask, if_pos (List.mem_map.2 ⟨_, mem, rfl⟩)]
  · rw [run, ask, if_neg fresh]

/-- Placing a path asks for its names in their order. -/
theorem run_placePath_snd (path : Path) (r : Registry) :
    ((placePath path).run r).2 = r.extend path.referents := by
  induction path generalizing r with
  | nil => rfl
  | cons step path ih =>
      cases step with
      | name n =>
          show ((placePath path).run ((placeName n).run r).2).2 = _
          rw [ih, run_placeName_snd]
          rfl
      | index i => exact ih r

theorem run_placeValues_snd (values : List Json) (r : Registry) :
    ((placeValues values).run r).2 = r.extend (values.map .value) := by
  induction values generalizing r with
  | nil => rfl
  | cons v values ih => exact ih (r.addValue v)

end Registry

theorem Comparator.run_placeRest_snd (rest : List (CompareOp × Json)) (r : Registry) :
    ((place.placeRest rest).run r).2 =
      r.extend (rest.map fun comparison => .value comparison.2) := by
  induction rest generalizing r with
  | nil => rfl
  | cons comparison rest ih => exact ih (r.addValue comparison.2)

/-- Placing comparisons asks for their values. The subject has been placed before, and is not asked
for again. -/
theorem Comparator.run_place_snd (c : Comparator) (subject : Subject NamePlaceholder)
    (r : Registry) :
    ((c.place subject).run r).2 =
      r.extend (c.toList.map fun comparison => .value comparison.2) :=
  run_placeRest_snd c.rest (r.addValue c.first.2)

/-! ### Walks -/

/-- What becomes of a registry on a walk over nodes, which ends at the first fault. -/
def walk : List Visit → Registry → Except ExpressionError Unit × Registry
  | [], r => (.ok (), r)
  | visit :: rest, r =>
    match visit.fault? with
    | some cause => (.error cause, r.extend cause.referents)
    | none => walk rest (r.extend visit.referents)

/-- A walk goes on behind a node without a fault, with what the node has asked for. -/
theorem walk_cons_of_sound {visit : Visit} (sound : visit.fault? = none) (rest : List Visit)
    (r : Registry) : walk (visit :: rest) r = walk rest (r.extend visit.referents) := by
  rw [walk, sound]

/-- A walk ends at a fault, with what was asked for until it was noticed. -/
theorem walk_cons_of_fault {visit : Visit} {cause : ExpressionError}
    (fault : visit.fault? = some cause) (rest : List Visit) (r : Registry) :
    walk (visit :: rest) r = (.error cause, r.extend cause.referents) := by
  rw [walk, fault]

/-- A walk over two lists is one over the second list when it gets through the first one. -/
theorem walk_append_of_ok {first : List Visit} {r s : Registry} (h : walk first r = (.ok (), s))
    (rest : List Visit) : walk (first ++ rest) r = walk rest s := by
  induction first generalizing r with
  | nil =>
      cases h
      rfl
  | cons visit first ih =>
      cases fault : visit.fault? with
      | some cause =>
          rw [walk_cons_of_fault fault] at h
          cases h
      | none =>
          rw [walk_cons_of_sound fault] at h
          rw [List.cons_append, walk_cons_of_sound fault]
          exact ih h

/-- A walk over two lists ends in the first one when there is a fault in it, whatever the second one
is. -/
theorem walk_append_of_error {first : List Visit} {r s : Registry} {cause : ExpressionError}
    (h : walk first r = (.error cause, s)) (rest : List Visit) :
    walk (first ++ rest) r = (.error cause, s) := by
  induction first generalizing r with
  | nil => cases h
  | cons visit first ih =>
      rw [List.cons_append]
      cases fault : visit.fault? with
      | some cause' =>
          rw [walk_cons_of_fault fault] at h ⊢
          exact h
      | none =>
          rw [walk_cons_of_sound fault] at h ⊢
          exact ih h

/-- A walk comes to its end if there is no fault, and leaves what all leaves have asked for, by
induction on the nodes. -/
theorem walk_of_sound {visits : List Visit} (sound : ∀ visit ∈ visits, visit.fault? = none)
    (r : Registry) : walk visits r = (.ok (), r.extend (visits.flatMap Visit.referents)) := by
  induction visits generalizing r with
  | nil => rfl
  | cons visit rest ih =>
      rw [List.forall_mem_cons] at sound
      rw [walk_cons_of_sound sound.1, ih sound.2, List.flatMap_cons, extend_append]

/-- A walk that comes to its end has met no fault. -/
theorem sound_of_walk {visits : List Visit} {r s : Registry} (h : walk visits r = (.ok (), s)) :
    ∀ visit ∈ visits, visit.fault? = none := by
  induction visits generalizing r with
  | nil => exact List.forall_mem_nil _
  | cons visit rest ih =>
      cases fault : visit.fault? with
      | some cause =>
          rw [walk_cons_of_fault fault] at h
          cases h
      | none =>
          rw [walk_cons_of_sound fault] at h
          exact List.forall_mem_cons.2 ⟨fault, ih h⟩

section Walks

variable {α β γ : Type} {x : Allocation α} {y : Allocation β} {visits visits' : List Visit}
  {visit : Visit}

/-- A compilation succeeds, fails and changes the registry as a walk over some nodes does. -/
def Walks (x : Allocation α) (visits : List Visit) : Prop :=
  ∀ r, match walk visits r with
    | (.ok (), s) => ∃ a, x.run.run r = (.ok a, s)
    | (.error cause, s) => x.run.run r = (.error cause, s)

/-- What walks over nodes succeeds when the walk gets through, with the registry that the walk
leaves. -/
theorem Walks.ok (h : Walks x visits) {r s : Registry} (reached : walk visits r = (.ok (), s)) :
    ∃ a, x.run.run r = (.ok a, s) := by
  have := h r
  rwa [reached] at this

/-- What walks over nodes fails when the walk ends at a fault, with its error and with the registry
of that moment. -/
theorem Walks.error (h : Walks x visits) {r s : Registry} {cause : ExpressionError}
    (reached : walk visits r = (.error cause, s)) : x.run.run r = (.error cause, s) := by
  have := h r
  rwa [reached] at this

theorem Walks.pure (a : α) : Walks (pure a : Allocation α) [] :=
  fun _ => ⟨a, rfl⟩

/-- A fault that is noticed at once. The nodes inside are not looked at, so they may be any. -/
theorem Walks.throw {cause : ExpressionError} (fault : visit.fault? = some cause)
    (early : cause.referents = []) (inner : List Visit) :
    Walks (throw cause : Allocation α) (visit :: inner) := by
  intro r
  rw [walk_cons_of_fault fault, early]
  rfl

/-- A leaf without a fault. It has to succeed whatever the registry is, and to ask for what its test
says. -/
theorem Walks.leaf (sound : visit.fault? = none)
    (run : ∀ r, ∃ a, x.run.run r = (.ok a, r.extend visit.referents)) : Walks x [visit] := by
  intro r
  rw [walk_cons_of_sound sound]
  exact run r

/-- A node without a fault that is not a leaf. It asks for nothing itself, so the walk goes on to
the nodes inside. -/
theorem Walks.node (h : Walks x visits) (sound : visit.fault? = none)
    (inner : visit.referents = []) : Walks x (visit :: visits) := by
  intro r
  rw [walk_cons_of_sound sound, inner]
  exact h r

/-- What is made of a result has no influence on the walk. -/
theorem Walks.map (h : Walks x visits) (k : α → β) : Walks (do return k (← x)) visits := by
  intro r
  generalize reached : walk visits r = result
  obtain ⟨outcome, s⟩ := result
  cases outcome with
  | ok _ =>
      obtain ⟨a, run⟩ := h.ok reached
      exact ⟨k a, run_bind_ok run⟩
  | error cause =>
      have run := h.error reached
      show _ = _
      rw [run_bind_error (congrArg Prod.fst run), run]

/-- Two walks in a row are a walk over the nodes of both, where the second one is not begun after a
fault of the first. -/
theorem Walks.map₂ (h : Walks x visits) (h' : Walks y visits') (k : α → β → γ) :
    Walks (do return k (← x) (← y)) (visits ++ visits') := by
  intro r
  generalize reached : walk visits r = result
  obtain ⟨outcome, s⟩ := result
  cases outcome with
  | ok _ =>
      obtain ⟨a, run⟩ := h.ok reached
      rw [walk_append_of_ok reached, run_bind_ok run]
      exact h'.map (k a) s
  | error cause =>
      have run := h.error reached
      rw [walk_append_of_error reached, run_bind_error (congrArg Prod.fst run), run]

end Walks

/-! ### Compiling is a walk -/

/-- A test at a path is a leaf. That the path has a step is part of the statement, for a test
without a path is a fault. -/
theorem Predicate.walks_place (step : Step String) (path : Path) (predicate : Predicate) :
    Walks (predicate.place (step :: path)) [⟨step :: path, .test predicate⟩] := by
  have placed := run_placePath_snd (step :: path)
  cases predicate with
  | oneOf candidates =>
      cases candidates with
      -- the path is placed before the candidates are looked at, and stays in the registry
      | nil =>
          intro r
          show (_, ((placePath (step :: path)).run r).2) = _
          rw [placed]
          rfl
      | cons candidate others =>
          refine .leaf rfl fun r => ⟨_, Prod.ext rfl ?_⟩
          show ((placeValues others).run
            (((placePath (step :: path)).run r).2.addValue candidate)).2 = _
          rw [run_placeValues_snd, placed, Visit.referents, extend_append]
          rfl
  | size comparator =>
      refine .leaf rfl fun r => ⟨_, Prod.ext rfl ?_⟩
      show ((comparator.place (.size ((placePath (step :: path)).run r).1)).run
        ((placePath (step :: path)).run r).2).2 = _
      rw [comparator.run_place_snd, placed, Visit.referents, extend_append, Predicate.literals,
        List.map_map]
      rfl
  | _ =>
      refine .leaf rfl fun r => ⟨_, Prod.ext rfl ?_⟩
      rw [Visit.referents, extend_append, ← placed]
      rfl

namespace Condition

mutual

/-- Compiling a condition at a path looks at its nodes in order and stops at the first fault. The
induction is on the condition, together with its fields and operands. -/
theorem walks_place (path : Path) (op : LogicalOp) (condition : Condition) :
    Walks (condition.place path op) (condition.visits path) := by
  cases condition with
  | compare comparator =>
      cases path with
      | nil => exact .throw rfl rfl []
      | cons step path =>
          refine .leaf rfl fun r => ⟨_, Prod.ext rfl ?_⟩
          show ((comparator.place (.itself ((placePath (step :: path)).run r).1)).run
            ((placePath (step :: path)).run r).2).2 = _
          rw [comparator.run_place_snd, run_placePath_snd, Visit.referents, extend_append]
  | test predicate =>
      cases path with
      | nil => exact .throw rfl rfl []
      | cons step path => exact predicate.walks_place step path
  | fields entries =>
      cases entries with
      | nil => exact .throw rfl rfl []
      | cons entry entries =>
          obtain ⟨name, condition⟩ := entry
          have first := walks_place (path.child name) .and condition
          exact (first.map₂ (walks_placeFields path entries) (Clause.joinAll op)).node rfl rfl
  | all operands => exact (walks_placeOperands path .and .all operands rfl rfl).map _
  | any operands => exact (walks_placeOperands path .or .any operands rfl rfl).map _
  | not operands => exact (walks_placeOperands path .and .not operands rfl rfl).map _
  | list operands => exact (walks_placeOperands path op .list operands rfl rfl).map _

/-- Compiling fields goes through them from left to right, each at the path below. -/
theorem walks_placeFields (path : Path) (entries : List (String × Condition)) :
    Walks (placeFields path entries) (visitsFields path entries) := by
  cases entries with
  | nil => exact .pure []
  | cons entry entries =>
      obtain ⟨name, condition⟩ := entry
      exact (walks_place (path.child name) .and condition).map₂ (walks_placeFields path entries) _

/-- Compiling the operands of a combinator begins with the combinator itself, whose only fault is to
have none. -/
theorem walks_placeOperands (path : Path) (op : LogicalOp) (combinator : Combinator)
    (operands : List Condition) {visit : Visit} (fault : visit.fault? = combinator.fault? operands)
    (inner : visit.referents = []) :
    Walks (placeOperands path op combinator operands) (visit :: visitsAll path operands) := by
  cases operands with
  | nil => exact .throw fault rfl []
  | cons operand operands =>
      have first := walks_place path op operand
      exact (first.map₂ (walks_placeRest path op operands) Prod.mk).node fault inner

/-- Compiling further operands goes through them from left to right, all at the same path. -/
theorem walks_placeRest (path : Path) (op : LogicalOp) (operands : List Condition) :
    Walks (placeRest path op operands) (visitsAll path operands) := by
  cases operands with
  | nil => exact .pure []
  | cons operand operands =>
      exact (walks_place path op operand).map₂ (walks_placeRest path op operands) _

end

/-- A condition has a clause if and only if no node of it is at fault. Otherwise the first node at
fault decides on the error, whatever the registry is, and the registry is extended by what the
leaves before that node ask for, and by the names on the path of a membership test without
candidates. The statement splits the nodes at the first fault, so that it says which one is reported
when there are several. -/
theorem compile_fails_at_first_fault (condition : Condition) :
    (∀ r, (∃ clause, (condition.compile.run.run r).1 = .ok clause) ↔
      ∀ visit ∈ condition.visits [], visit.fault? = none) ∧
    ∀ before visit after cause, condition.visits [] = before ++ visit :: after →
      (∀ earlier ∈ before, earlier.fault? = none) → visit.fault? = some cause →
      ∀ r, condition.compile.run.run r =
        (.error cause, r.extend (before.flatMap Visit.referents ++ cause.referents)) := by
  have walks : Walks condition.compile (condition.visits []) := walks_place [] .and condition
  constructor
  · intro r
    constructor
    · rintro ⟨clause, ok⟩
      -- what the walk comes to decides what compiling comes to, either way
      generalize reached : walk (condition.visits []) r = result
      obtain ⟨outcome, s⟩ := result
      cases outcome with
      | ok _ => exact sound_of_walk reached
      | error cause =>
          rw [walks.error reached] at ok
          cases ok
    · intro sound
      obtain ⟨clause, run⟩ := walks.ok (walk_of_sound sound r)
      exact ⟨clause, congrArg Prod.fst run⟩
  · intro before visit after cause split sound fault r
    apply walks.error
    rw [split, walk_append_of_ok (walk_of_sound sound r), walk_cons_of_fault fault, extend_append]

/-- A condition with three faults: a membership test without candidates, then an empty combinator,
and a test outside of all attributes at the end. -/
def threeFaults : Condition :=
  all [field "a" (compareWith .eq .null),
    any [field "a" (test .present), field "b" (test (.oneOf [])), not []],
    test .absent]

/-- The name before the first fault is asked for twice and given out once. -/
theorem compile_fails_at_first_fault_threeFaults :
    threeFaults.compile.run.run empty =
      (.error (.emptyInList (.ofName "b")),
        ⟨[(⟨0⟩, "a"), (⟨2⟩, "b")], [(⟨1⟩, .null)], 3⟩) := by
  have sound : ((threeFaults.visits []).take 7).all fun visit => visit.fault?.isNone := rfl
  refine (compile_fails_at_first_fault threeFaults).2 ((threeFaults.visits []).take 7)
    ⟨.ofName "b", test (.oneOf [])⟩ ((threeFaults.visits []).drop 8) (.emptyInList (.ofName "b"))
    rfl ?_ rfl empty
  exact fun earlier mem => Option.isNone_iff_eq_none.1 (List.all_eq_true.1 sound earlier mem)

end Condition

end DocumentTable
