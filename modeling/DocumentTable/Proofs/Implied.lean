import DocumentTable.Proofs.Run

/-!
# Implied combinators

Several fields of an attribute are combined although no combinator is written, and so are the
elements of a list. Writing the combinators out, all at once and at all depths, changes nothing
about what is compiled.

## Main definitions

* `LogicalOp.combination`: the combinator of an operator
* `Condition.writtenOut`: a condition with all combinators written out
* `Condition.IsWrittenOut`: no combinator is implied at any depth
* `Condition.Filled`: no field map and no list is empty at any depth

## Main results

* `Condition.text_writtenOut`: the text of a condition, the registry behind it and its error do not
  depend on whether combinators are written out

## Design notes

The operator in force is part of the recursion: fields and negations start again from `AND`, and a
list hands on the operator that it is itself under.
-/

namespace DocumentTable

/-- The combination of conditions by an operator. -/
def LogicalOp.combination : LogicalOp → List Condition → Condition
  | and, operands => .all operands
  | or, operands => .any operands

namespace Condition

/-- The field map whose fields are given as field maps of one entry each. If there are several, they
are the operands of an operator. -/
def ofSingles (op : LogicalOp) : List Condition → Condition
  | [] => fields []
  | [single] => single
  | first :: second :: rest => op.combination (first :: second :: rest)

mutual

/-- A condition with all combinators written out, where an operator is in force. -/
def writtenOut (op : LogicalOp) : Condition → Condition
  | compare comparator => compare comparator
  | test predicate => test predicate
  | fields entries => ofSingles op (writtenOutFields entries)
  | all operands => all (writtenOutAll .and operands)
  | any operands => any (writtenOutAll .or operands)
  | not operands => not (writtenOutAll .and operands)
  | list operands => op.combination (writtenOutAll op operands)

/-- The field maps of single entries, with all combinators below them written out. -/
def writtenOutFields : List (String × Condition) → List Condition
  | [] => []
  | (name, condition) :: entries =>
    field name (writtenOut .and condition) :: writtenOutFields entries

/-- Operands with all combinators written out, where an operator is in force. -/
def writtenOutAll (op : LogicalOp) : List Condition → List Condition
  | [] => []
  | operand :: operands => writtenOut op operand :: writtenOutAll op operands

end

mutual

/-- No field map and no list is empty, at any depth. -/
def Filled : Condition → Prop
  | compare _ => True
  | test _ => True
  | fields entries => entries ≠ [] ∧ FilledFields entries
  | all operands => FilledAll operands
  | any operands => FilledAll operands
  | not operands => FilledAll operands
  | list operands => operands ≠ [] ∧ FilledAll operands

/-- No field map and no list below fields is empty. -/
def FilledFields : List (String × Condition) → Prop
  | [] => True
  | (_, condition) :: entries => Filled condition ∧ FilledFields entries

/-- No field map and no list in operands is empty. -/
def FilledAll : List Condition → Prop
  | [] => True
  | operand :: operands => Filled operand ∧ FilledAll operands

end

mutual

/-- No combinator is implied: there is no list and no field map of several entries, at any depth. -/
def IsWrittenOut : Condition → Prop
  | compare _ => True
  | test _ => True
  | fields entries => entries.length ≤ 1 ∧ IsWrittenOutFields entries
  | all operands => IsWrittenOutAll operands
  | any operands => IsWrittenOutAll operands
  | not operands => IsWrittenOutAll operands
  | list _ => False

/-- No combinator is implied below fields. -/
def IsWrittenOutFields : List (String × Condition) → Prop
  | [] => True
  | (_, condition) :: entries => IsWrittenOut condition ∧ IsWrittenOutFields entries

/-- No combinator is implied in operands. -/
def IsWrittenOutAll : List Condition → Prop
  | [] => True
  | operand :: operands => IsWrittenOut operand ∧ IsWrittenOutAll operands

end

/-! ### Nothing is left to be implied -/

theorem isWrittenOut_combination {op : LogicalOp} {operands : List Condition} :
    (op.combination operands).IsWrittenOut ↔ IsWrittenOutAll operands := by
  cases op <;> rw [LogicalOp.combination, IsWrittenOut]

theorem isWrittenOut_ofSingles (op : LogicalOp) {singles : List Condition}
    (h : IsWrittenOutAll singles) : (ofSingles op singles).IsWrittenOut := by
  cases singles with
  | nil => exact ⟨Nat.zero_le 1, trivial⟩
  | cons first rest =>
      cases rest with
      | nil => exact h.1
      | cons second rest => exact isWrittenOut_combination.2 h

mutual

/-- Writing out the combinators of a condition leaves none of them implied, by induction on the
condition. -/
theorem isWrittenOut_writtenOut (op : LogicalOp) (condition : Condition) :
    (condition.writtenOut op).IsWrittenOut := by
  cases condition with
  | compare comparator => trivial
  | test predicate => trivial
  | fields entries => exact isWrittenOut_ofSingles op (isWrittenOut_writtenOutFields entries)
  | all operands => exact isWrittenOut_writtenOutAll .and operands
  | any operands => exact isWrittenOut_writtenOutAll .or operands
  | not operands => exact isWrittenOut_writtenOutAll .and operands
  | list operands => exact isWrittenOut_combination.2 (isWrittenOut_writtenOutAll op operands)

theorem isWrittenOut_writtenOutFields (entries : List (String × Condition)) :
    IsWrittenOutAll (writtenOutFields entries) := by
  cases entries with
  | nil => trivial
  | cons entry entries =>
      obtain ⟨name, condition⟩ := entry
      exact ⟨⟨Nat.le_refl 1, isWrittenOut_writtenOut .and condition, trivial⟩,
        isWrittenOut_writtenOutFields entries⟩

theorem isWrittenOut_writtenOutAll (op : LogicalOp) (operands : List Condition) :
    IsWrittenOutAll (writtenOutAll op operands) := by
  cases operands with
  | nil => trivial
  | cons operand operands =>
      exact ⟨isWrittenOut_writtenOut op operand, isWrittenOut_writtenOutAll op operands⟩

end

/-! ### Compiling what is written out -/

/-- A field map of one entry is the condition one level below. The operator in force there is the
conjunction, whatever it was above. -/
theorem place_field (path : Path) (op : LogicalOp) (name : String) (condition : Condition) :
    (field name condition).place path op = condition.place (path.child name) .and := by
  simp [field, place, placeFields, Clause.joinAll]

/-- A combinator with operands is compiled as its operands in turn, under its own operator. -/
theorem place_combination (path : Path) (op op' : LogicalOp) (operand : Condition)
    (operands : List Condition) :
    (op.combination (operand :: operands)).place path op' = do
      let first ← operand.place path op
      let rest ← placeRest path op operands
      return .joinAll op first rest := by
  cases op <;> simp [LogicalOp.combination, place, placeOperands]

/-- A list with elements is compiled as its elements in turn, under the operator in force. -/
theorem place_list (path : Path) (op : LogicalOp) (operand : Condition)
    (operands : List Condition) :
    (list (operand :: operands)).place path op = do
      let first ← operand.place path op
      let rest ← placeRest path op operands
      return .joinAll op first rest := by
  simp [place, placeOperands]

mutual

/-- A condition is compiled alike when its combinators are written out, at every path and under
every operator. The induction is on the condition. Empty field maps and lists are excluded, since
the error about one says what it is that is empty. -/
theorem place_writtenOut (path : Path) (op : LogicalOp) {condition : Condition}
    (filled : condition.Filled) :
    (condition.writtenOut op).place path op = condition.place path op := by
  cases condition with
  | compare comparator => rfl
  | test predicate => rfl
  | fields entries =>
      obtain ⟨nonempty, filled⟩ := filled
      cases entries with
      | nil => exact absurd rfl nonempty
      | cons entry entries =>
          obtain ⟨name, condition⟩ := entry
          obtain ⟨filled, rest⟩ := filled
          have first := place_writtenOut (path.child name) .and filled
          have others := placeRest_writtenOutFields path op rest
          -- a single field needs no combinator around it
          rw [writtenOut, writtenOutFields]
          cases entries with
          | nil => rw [writtenOutFields, ofSingles, place_field, first, ← field, place_field]
          | cons entry entries =>
              obtain ⟨name', condition'⟩ := entry
              rw [writtenOutFields] at others ⊢
              rw [ofSingles, place_combination, place_field, first, others, place]
  | all operands => rw [writtenOut, place, place, placeOperands_writtenOutAll path .and .all filled]
  | any operands => rw [writtenOut, place, place, placeOperands_writtenOutAll path .or .any filled]
  | not operands => rw [writtenOut, place, place, placeOperands_writtenOutAll path .and .not filled]
  | list operands =>
      obtain ⟨nonempty, filled⟩ := filled
      cases operands with
      | nil => exact absurd rfl nonempty
      | cons operand operands =>
          rw [writtenOut, writtenOutAll, place_combination, place_list,
            place_writtenOut path op filled.1, placeRest_writtenOutAll path op filled.2]

theorem placeRest_writtenOutFields (path : Path) (op : LogicalOp)
    {entries : List (String × Condition)} (filled : FilledFields entries) :
    placeRest path op (writtenOutFields entries) = placeFields path entries := by
  cases entries with
  | nil => rfl
  | cons entry entries =>
      obtain ⟨name, condition⟩ := entry
      rw [writtenOutFields, placeRest, placeFields, place_field,
        place_writtenOut (path.child name) .and filled.1,
        placeRest_writtenOutFields path op filled.2]

theorem placeOperands_writtenOutAll (path : Path) (op : LogicalOp) (combinator : Combinator)
    {operands : List Condition} (filled : FilledAll operands) :
    placeOperands path op combinator (writtenOutAll op operands) =
      placeOperands path op combinator operands := by
  cases operands with
  | nil => rfl
  | cons operand operands =>
      rw [writtenOutAll, placeOperands, placeOperands, place_writtenOut path op filled.1,
        placeRest_writtenOutAll path op filled.2]

theorem placeRest_writtenOutAll (path : Path) (op : LogicalOp) {operands : List Condition}
    (filled : FilledAll operands) :
    placeRest path op (writtenOutAll op operands) = placeRest path op operands := by
  cases operands with
  | nil => rfl
  | cons operand operands =>
      rw [writtenOutAll, placeRest, placeRest, place_writtenOut path op filled.1,
        placeRest_writtenOutAll path op filled.2]

end

/-- With its combinators written out, a condition implies none, and makes the same text, the same
error and the same registry, whatever the registry was before. Empty field maps and lists are
excluded, since the error about one says what it is that is empty. -/
theorem text_writtenOut {condition : Condition} (filled : condition.Filled) :
    (condition.writtenOut .and).IsWrittenOut ∧
      ∀ r, (RegistryStep.condition (condition.writtenOut .and)).text.run.run r =
        (RegistryStep.condition condition).text.run.run r := by
  refine ⟨isWrittenOut_writtenOut .and condition, fun r => ?_⟩
  rw [RegistryStep.text, compile, place_writtenOut [] .and filled]
  rfl

/-- Fields and lists under a disjunction, below a field and in a negation. -/
def impliedThrice : Condition :=
  any [fields [("a", test .present), ("b", list [test (.hasType "S"), test (.contains .null)])],
    list [field "c" (test .absent), not [fields [("d", test .present), ("e", test .present)]]]]

/-- Each of its combinators is that of the operator in force where it is implied. -/
theorem text_writtenOut_impliedThrice :
    impliedThrice.Filled ∧
      impliedThrice.writtenOut .and = any
        [any [field "a" (test .present),
            field "b" (all [test (.hasType "S"), test (.contains .null)])],
          any [field "c" (test .absent),
            not [all [field "d" (test .present), field "e" (test .present)]]]] ∧
      ∀ r, (RegistryStep.condition (impliedThrice.writtenOut .and)).text.run.run r =
        (RegistryStep.condition impliedThrice).text.run.run r := by
  have filled : impliedThrice.Filled := by
    simp [impliedThrice, Filled, FilledFields, FilledAll, field]
  exact ⟨filled, rfl, (text_writtenOut filled).2⟩

end Condition

end DocumentTable
