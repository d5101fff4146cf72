import DocumentTable.Proofs.Reading
import DocumentTable.Proofs.Run

/-!
# What conditions mean

A condition says something about an item in two ways: as a tree, and as the text that it is compiled
to, which the service reads. Both are true of the same items.

## Main definitions

* `Condition.holds`: the truth of a condition as a tree
* `Registry.nameOf?`: the name that a registry has for what is written
* `Clause.Expresses`: a clause is true when something is

## Main results

* `Condition.expresses_draft`: the clause of a condition is true when the condition holds
* `Condition.readings`: the text of a condition can be read, in one way, and says what the condition
  says

## Design notes

Whether a single test is true of an item is left open. The truth of the tests is a parameter, and
every statement is about all ways to choose it.
-/

namespace DocumentTable

/-! ### The truth of conditions -/

/-- The combination of any number of truth values. -/
def LogicalOp.combine : LogicalOp → List Bool → Bool
  | and, truths => truths.all id
  | or, truths => truths.any id

section Holds

variable (truth : Test String Json → Bool)

/-- Whether a subject compares as said. -/
def Comparator.holds (subject : Term String Json) (c : Comparator) : Bool :=
  LogicalOp.and.combine (c.toList.map fun pair => truth (.compare subject pair.1 (.value pair.2)))

/-- Whether a test is true of the attribute at a path. -/
def Predicate.holds (path : Path) : Predicate → Bool
  | present => truth (.call .attributeExists path none)
  | absent => truth (.call .attributeNotExists path none)
  | hasType tag => truth (.call .attributeType path (some (.value (.string tag))))
  | beginsWith start => truth (.call .beginsWith path (some (.value start)))
  | contains operand => truth (.call .contains path (some (.value operand)))
  | between lower upper => truth (.between (.path path) (.value lower) (.value upper))
  | oneOf [] => false
  | oneOf (candidate :: others) =>
    truth (.oneOf (.path path) (.value candidate) (others.map .value))
  | size comparator => comparator.holds truth (.size path)

namespace Condition

mutual

/-- Whether a condition holds at a path, where lists and fields are combined as said. -/
def holds (path : Path) (op : LogicalOp) : Condition → Bool
  | compare comparator => comparator.holds truth (.path path)
  | test predicate => predicate.holds truth path
  | fields entries => op.combine (holdsFields path entries)
  | all operands => LogicalOp.and.combine (holdsEach path .and operands)
  | any operands => LogicalOp.or.combine (holdsEach path .or operands)
  | not operands => !LogicalOp.and.combine (holdsEach path .and operands)
  | list operands => op.combine (holdsEach path op operands)

/-- Which of some fields hold. -/
def holdsFields (path : Path) : List (String × Condition) → List Bool
  | [] => []
  | (name, condition) :: entries =>
    holds (path.child name) .and condition :: holdsFields path entries

/-- Which of some operands hold. -/
def holdsEach (path : Path) (op : LogicalOp) : List Condition → List Bool
  | [] => []
  | operand :: operands => holds path op operand :: holdsEach path op operands

end

end Condition

end Holds

/-! ### What clauses say -/

namespace Clause

/-- A clause that can be read and is true when something is. -/
structure Expresses (clause : Clause String Json) (holds : (Test String Json → Bool) → Bool) :
    Prop where
  fits : clause.Fits
  eval_eq : ∀ truth, clause.formula.eval truth = holds truth

/-- Clauses that can be read, each of which is true when something is. -/
structure ExpressAll (clauses : List (Clause String Json))
    (holds : (Test String Json → Bool) → List Bool) : Prop where
  fits : ∀ clause ∈ clauses, clause.Fits
  eval_eq : ∀ truth, clauses.map (fun clause => clause.formula.eval truth) = holds truth

variable {clause : Clause String Json} {clauses : List (Clause String Json)}
  {holds : (Test String Json → Bool) → Bool} {holdsRest : (Test String Json → Bool) → List Bool}

theorem ExpressAll.nil : ExpressAll [] fun _ => [] :=
  ⟨List.forall_mem_nil _, fun _ => rfl⟩

theorem ExpressAll.cons (h : clause.Expresses holds) (h' : ExpressAll clauses holdsRest) :
    ExpressAll (clause :: clauses) fun truth => holds truth :: holdsRest truth where
  fits := List.forall_mem_cons.2 ⟨h.fits, h'.fits⟩
  eval_eq truth := by rw [List.map_cons, h.eval_eq, h'.eval_eq]

theorem Expresses.negate (h : clause.Expresses holds) :
    (Clause.negate clause).Expresses fun truth => !holds truth where
  fits := h.fits
  eval_eq truth := by rw [formula, Formula.eval, h.eval_eq]

theorem fits_joinAll {op : LogicalOp} (h : ∀ c ∈ clause :: clauses, Fits c) :
    (joinAll op clause clauses).Fits := by
  induction clauses generalizing clause with
  | nil => exact h clause List.mem_cons_self
  | cons next rest ih =>
      simp only [List.forall_mem_cons] at h ih
      exact ih ⟨⟨h.1, h.2.1⟩, h.2.2⟩

theorem eval_formula_joinAll (truth : Test String Json → Bool) (op : LogicalOp)
    (clause : Clause String Json) (clauses : List (Clause String Json)) :
    (joinAll op clause clauses).formula.eval truth =
      op.combine ((clause :: clauses).map fun c => c.formula.eval truth) := by
  induction clauses generalizing clause with
  | nil => cases op <;> simp [joinAll, LogicalOp.combine]
  | cons next rest ih =>
      show (joinAll op (.join op clause next) rest).formula.eval truth = _
      rw [ih]
      cases op <;>
        simp [LogicalOp.combine, formula, Formula.eval, LogicalOp.apply, Bool.and_assoc,
          Bool.or_assoc]

/-- Joined clauses say what they say together. The grouping does not matter, as conjunctions and
alternatives are associative. -/
theorem ExpressAll.joinAll (op : LogicalOp) (h : ExpressAll (clause :: clauses) holdsRest) :
    (Clause.joinAll op clause clauses).Expresses fun truth => op.combine (holdsRest truth) where
  fits := fits_joinAll h.fits
  eval_eq truth := by rw [eval_formula_joinAll, h.eval_eq]

end Clause

/-! ### Drafts say what conditions say -/

/-- Whether a path can be extended by a name and then starts with a name. -/
def Path.isRooted (path : Path) : Bool :=
  path.isEmpty || startsWithName path

theorem Path.startsWithName_of_isRooted {path : Path} (h : path.isRooted = true)
    (h' : ¬path.isEmpty = true) : startsWithName path = true := by
  simpa [isRooted, h'] using h

theorem Path.isRooted_child {path : Path} (h : path.isRooted = true) (name : String) :
    (path.child name).isRooted = true := by
  cases path with
  | nil => rfl
  | cons step rest =>
      cases step with
      | name n => rfl
      | index i => cases h

theorem Comparator.expresses_draft (c : Comparator) {subject : Subject String}
    (h : startsWithName subject.path = true) :
    (c.draft subject).Expresses fun truth => c.holds truth subject.term where
  fits := h
  eval_eq truth := by
    rw [draft, Clause.formula, eval_conjoin, holds, LogicalOp.combine, toList, ← List.map_cons,
      List.all_map, List.all_map]
    rfl

/-- The clause of a test is true when the test is, whatever the truth of single comparisons is. -/
theorem Predicate.expresses_draft {path : Path} (h : startsWithName path = true)
    {predicate : Predicate} {clause : Clause String Json} (ok : predicate.draft path = .ok clause) :
    clause.Expresses fun truth => predicate.holds truth path := by
  cases predicate with
  | oneOf candidates =>
      cases candidates with
      | nil => cases ok
      | cons candidate others =>
          cases ok
          exact ⟨h, fun _ => rfl⟩
  | between lower upper =>
      cases ok
      exact ⟨h, fun _ => rfl⟩
  | size comparator =>
      cases ok
      exact comparator.expresses_draft h
  | _ =>
      cases ok
      exact ⟨⟨h, rfl⟩, fun _ => rfl⟩

namespace Condition

mutual

/-- The clause of a condition is true when the condition holds. The induction is on the condition;
the path starts with a name unless it is empty, which holds at the top and below each field. -/
theorem expresses_draft {path : Path} (rooted : path.isRooted = true) {op : LogicalOp}
    {condition : Condition} {clause : Clause String Json}
    (ok : condition.draft path op = .ok clause) :
    clause.Expresses fun truth => condition.holds truth path op := by
  cases condition with
  | compare comparator =>
      rw [draft] at ok
      split at ok
      · cases ok
      · next nonempty =>
          cases ok
          exact comparator.expresses_draft (Path.startsWithName_of_isRooted rooted nonempty)
  | test predicate =>
      rw [draft] at ok
      split at ok
      · cases ok
      · next nonempty =>
          exact Predicate.expresses_draft (Path.startsWithName_of_isRooted rooted nonempty) ok
  | fields entries =>
      cases entries with
      | nil => cases ok
      | cons entry entries =>
          obtain ⟨name, condition⟩ := entry
          rw [draft] at ok
          obtain ⟨first, hfirst, ok⟩ := exists_of_except_bind ok
          obtain ⟨rest, hrest, ok⟩ := exists_of_except_bind ok
          cases ok
          have head := expresses_draft (Path.isRooted_child rooted name) hfirst
          exact (Clause.ExpressAll.cons head (expressAll_draftFields rooted hrest)).joinAll op
  | all operands =>
      rw [draft] at ok
      obtain ⟨⟨first, rest⟩, operands, ok⟩ := exists_of_except_bind ok
      cases ok
      exact (expressAll_draftOperands rooted operands).joinAll .and
  | any operands =>
      rw [draft] at ok
      obtain ⟨⟨first, rest⟩, operands, ok⟩ := exists_of_except_bind ok
      cases ok
      exact (expressAll_draftOperands rooted operands).joinAll .or
  | not operands =>
      rw [draft] at ok
      obtain ⟨⟨first, rest⟩, operands, ok⟩ := exists_of_except_bind ok
      cases ok
      exact ((expressAll_draftOperands rooted operands).joinAll .and).negate
  | list operands =>
      rw [draft] at ok
      obtain ⟨⟨first, rest⟩, operands, ok⟩ := exists_of_except_bind ok
      cases ok
      -- only a list takes over the operator around it
      exact (expressAll_draftOperands rooted operands).joinAll op

/-- The clauses of fields are true when the fields hold, one for one. -/
theorem expressAll_draftFields {path : Path} (rooted : path.isRooted = true)
    {entries : List (String × Condition)} {clauses : List (Clause String Json)}
    (ok : draftFields path entries = .ok clauses) :
    Clause.ExpressAll clauses fun truth => holdsFields truth path entries := by
  cases entries with
  | nil =>
      cases ok
      exact .nil
  | cons entry entries =>
      obtain ⟨name, condition⟩ := entry
      rw [draftFields] at ok
      obtain ⟨first, hfirst, ok⟩ := exists_of_except_bind ok
      obtain ⟨rest, hrest, ok⟩ := exists_of_except_bind ok
      cases ok
      exact .cons (expresses_draft (Path.isRooted_child rooted name) hfirst)
        (expressAll_draftFields rooted hrest)

/-- The clauses of operands are true when the operands hold, one for one. -/
theorem expressAll_draftOperands {path : Path} (rooted : path.isRooted = true) {op : LogicalOp}
    {combinator : Combinator} {operands : List Condition} {first : Clause String Json}
    {rest : List (Clause String Json)}
    (ok : draftOperands path op combinator operands = .ok (first, rest)) :
    Clause.ExpressAll (first :: rest) fun truth => holdsEach truth path op operands := by
  cases operands with
  | nil => cases ok
  | cons operand operands =>
      rw [draftOperands] at ok
      obtain ⟨first', hfirst, ok⟩ := exists_of_except_bind ok
      obtain ⟨rest', hrest, ok⟩ := exists_of_except_bind ok
      cases ok
      exact .cons (expresses_draft rooted hfirst) (expressAll_draftRest rooted hrest)

theorem expressAll_draftRest {path : Path} (rooted : path.isRooted = true) {op : LogicalOp}
    {operands : List Condition} {clauses : List (Clause String Json)}
    (ok : draftRest path op operands = .ok clauses) :
    Clause.ExpressAll clauses fun truth => holdsEach truth path op operands := by
  cases operands with
  | nil =>
      cases ok
      exact .nil
  | cons operand operands =>
      rw [draftRest] at ok
      obtain ⟨first, hfirst, ok⟩ := exists_of_except_bind ok
      obtain ⟨rest, hrest, ok⟩ := exists_of_except_bind ok
      cases ok
      exact .cons (expresses_draft rooted hfirst) (expressAll_draftRest rooted hrest)

end

end Condition

/-! ### Texts say what conditions say -/

/-- The name that a registry has for what is written. -/
def Registry.nameOf? (r : Registry) : WrittenName → Option String
  | .ref text => r.nameDict.get? text
  | .word letters => some (String.ofList letters)

/-- What is written for a clause stands for the clause: each reference in it is found in the
registry as the name or the value that was placed. -/
theorem Registry.Placed.resolve_written {r s : Registry} (h : s.WellFormed)
    {entries : Clause NameEntry ValueEntry} (placed : Placed r s entries.names entries.literals) :
    (Clause.written (entries.map Prod.fst Prod.fst)).resolve s.nameOf? s.valueDict.get? =
      some (entries.map Prod.snd Prod.snd).formula := by
  rw [Clause.written, Clause.map_map]
  apply Clause.resolve_formula
  · intro entry hentry
    exact h.get?_nameDict.2 ⟨entry.1, rfl, placed.mem_names entry hentry⟩
  · intro entry hentry
    refine h.get?_valueDict.2 ⟨entry.1, rfl, ?_⟩
    rw [placed.values_eq]
    exact List.mem_append_right _ hentry

/-- The text of a condition, compiled with any registry that a run can leave, can be read however
strongly operators bind. All ways to read it are the same but for the grouping of conjunctions. All
references in it stand for something, and with that in their place it is true when the condition
holds. The only hypothesis is that the condition was compiled; which conditions are is said by their
faults. -/
theorem Condition.readings (steps : List RegistryStep) {condition : Condition}
    {clause : PlacedClause} {s : Registry}
    (run : condition.compile.run.run (Registry.after steps) = (.ok clause, s)) :
    (∀ p, ∃ f, Derives p 0 (tokens clause.text) f) ∧
      (∀ p p' n n' f f', Derives p n (tokens clause.text) f →
        Derives p' n' (tokens clause.text) f' → SameUpToAnd f f') ∧
      ∀ p n f, Derives p n (tokens clause.text) f →
        ∃ g, f.resolve s.nameOf? s.valueDict.get? = some g ∧
          ∀ truth, g.eval truth = condition.holds truth [] .and := by
  obtain ⟨draft, ok, place⟩ := condition.follows_compile.exists_draft run
  obtain ⟨entries, rfl, out, placed⟩ := draft.exists_entries (Registry.after steps)
  rw [place] at out placed
  subst out
  have meaning := Condition.expresses_draft rfl ok
  have fits : (entries.map Prod.fst Prod.fst).Fits := by
    have := meaning.fits
    rwa [Clause.fits_map] at this ⊢
  -- what was given out for the clause is still there, since nothing is ever taken back
  have resolved :=
    placed.resolve_written ((Registry.wellFormed_after steps).of_grows placed.grows)
  rw [Clause.tokens_text]
  refine ⟨fun p => ⟨_, Clause.derives p fits⟩, ?_, ?_⟩
  · intro p p' n n' f f' read read'
    exact (Clause.sameUpToAnd_of_derives fits read).trans
      (Clause.sameUpToAnd_of_derives fits read').symm
  · intro p n f read
    have same := Clause.sameUpToAnd_of_derives fits read
    -- a reading has a meaning since the written formula has one, and then it is the same
    have value (truth : Test String Json → Bool) :
        (f.resolve s.nameOf? s.valueDict.get?).map (Formula.eval truth) =
          some (condition.holds truth [] .and) := by
      rw [same.eval_resolve, resolved, ← meaning.eval_eq]
      rfl
    cases found : f.resolve s.nameOf? s.valueDict.get? with
    | none =>
        rw [found] at value
        cases value fun _ => true
    | some g =>
        rw [found] at value
        exact ⟨g, rfl, fun truth => Option.some.inj (value truth)⟩

/-- The negation of a list with alternatives, after another value was given a placeholder. -/
theorem Condition.readings_not : ∃ (clause : PlacedClause) (s : Registry),
    (Condition.not [.field "a" (.compareWith .eq (.bool true)),
      .field "b" (.any [.test .present, .test (.beginsWith (.string "x"))])]).compile.run.run
        (Registry.after [.value .null]) = (.ok clause, s) ∧
      clause.text = "NOT ((#attr1 = :val2) AND " ++
        "((attribute_exists (#attr3)) OR (begins_with (#attr3, :val4))))" ∧
      (∀ p, ∃ f, Derives p 0 (tokens clause.text) f) ∧
      ∀ p n f, Derives p n (tokens clause.text) f →
        ∃ g, f.resolve s.nameOf? s.valueDict.get? = some g ∧
          ∀ truth, g.eval truth =
            !(truth (.compare (.path [.name "a"]) .eq (.value (.bool true))) &&
              (truth (.call .attributeExists [.name "b"] none) ||
                truth (.call .beginsWith [.name "b"] (some (.value (.string "x")))))) := by
  have run : (Condition.not [.field "a" (.compareWith .eq (.bool true)),
      .field "b" (.any [.test .present, .test (.beginsWith (.string "x"))])]).compile.run.run
        (Registry.after [.value .null]) = (.ok _, _) := rfl
  obtain ⟨readable, -, meaning⟩ := Condition.readings _ run
  refine ⟨_, _, run, by decide, readable, ?_⟩
  intro p n f read
  obtain ⟨g, resolved, eval⟩ := meaning p n f read
  refine ⟨g, resolved, ?_⟩
  intro truth
  rw [eval]
  simp [holds, holdsFields, holdsEach, field, compareWith, Comparator.single, Comparator.holds,
    Comparator.toList, Predicate.holds, LogicalOp.combine, Path.child]

end DocumentTable
