import DocumentTable.Proofs.Outline

/-!
# Renaming

The text of an expression does not depend on its names and its values, only on which names are the
same. Names may hold anything that has a meaning in expressions; since only placeholders are
written, nothing of that reaches the service.

## Main definitions

* `Commutes`: a computation and a renaming of the registry may be done in either order
* `Mirrors`: two registries with the same placeholders for different names and values
* `SameText`: two runs that make the same text of expressions with different names and values

## Main results

* `sameText_of_outline`: expressions with the same outline up to an injective renaming are compiled
  to the same text

## Design notes

Two expressions have the same outline when they differ in their values only. The values may change
independently of one another, also where they were the same.
-/

namespace DocumentTable

open Registry

/-! ### Renaming a registry -/

variable {α β δ : Type}

/-- The registry with other names and other values behind its placeholders. -/
def Registry.map (ρ : String → String) (g : Json → Json) (r : Registry) : Registry where
  names := r.names.map (Prod.map id ρ)
  values := r.values.map (Prod.map id g)
  next := r.next

/-- A computation and a renaming of the registry may be done in either order. -/
def Commutes (ρ : String → String) (g : Json → Json) (x y : StateM Registry α) : Prop :=
  ∀ r, y.run (r.map ρ g) = ((x.run r).1, (x.run r).2.map ρ g)

section Commutes

variable {ρ : String → String} {g : Json → Json}

/-- A computation that leaves the registry alone commutes with every renaming of it. -/
theorem Commutes.pure (a : α) : Commutes ρ g (pure a) (pure a) :=
  fun _ => rfl

/-- Computations that commute may be done one after the other. The second may depend on the result
of the first, since a renaming does not change results. -/
theorem Commutes.bind {x y : StateM Registry α} {f f' : α → StateM Registry β}
    (h : Commutes ρ g x y) (h' : ∀ a, Commutes ρ g (f a) (f' a)) :
    Commutes ρ g (x >>= f) (y >>= f') := by
  intro r
  show (f' (y.run (r.map ρ g)).1).run (y.run (r.map ρ g)).2 = _
  rw [h r]
  exact h' _ _

theorem Commutes.map {x y : StateM Registry α} (h : Commutes ρ g x y) (f : α → β) :
    Commutes ρ g (do return f (← x)) (do return f (← y)) :=
  h.bind fun _ => .pure _

/-- The placeholder of a name is that of the changed name. Were the renaming not injective, the
search could stop at another name. -/
theorem placeholder?_map (hρ : Function.Injective ρ) (r : Registry) (n : String) :
    (r.map ρ g).placeholder? (ρ n) = r.placeholder? n := by
  simp only [placeholder?, Registry.map, List.find?_map, Function.comp_def, Prod.map_snd,
    hρ.eq_iff, Option.map_map]
  rfl

/-- Placing a name commutes with an injective renaming: the name is new after the renaming exactly
when it was before. -/
theorem commutes_placeName (hρ : Function.Injective ρ) (n : String) :
    Commutes ρ g (placeName n) (placeName (ρ n)) := by
  intro r
  show placeName (ρ n) (r.map ρ g) = ((placeName n r).1, (placeName n r).2.map ρ g)
  rw [placeName, placeName, placeholder?_map hρ]
  cases r.placeholder? n with
  | some p => rfl
  | none => simp [Registry.map]

/-- Placing a value commutes with any change of values, since values are not compared with one
another. -/
theorem commutes_placeValue (v : Json) : Commutes ρ g (placeValue v) (placeValue (g v)) := by
  intro r
  show placeValue (g v) (r.map ρ g) = ((placeValue v r).1, (placeValue v r).2.map ρ g)
  simp [placeValue, Registry.map]

/-- Placing a path commutes with an injective renaming, by induction on its steps. -/
theorem commutes_placePath (hρ : Function.Injective ρ) (path : Path) :
    Commutes ρ g (placePath path) (placePath (path.map (Step.map ρ))) := by
  induction path with
  | nil => exact .pure _
  | cons step rest ih =>
      cases step with
      | name n => exact (commutes_placeName hρ n).bind fun _ => ih.map _
      | index i => exact ih.map _

/-- Placing the paths of a projection commutes with an injective renaming, by induction on the
paths. -/
theorem commutes_placePaths (hρ : Function.Injective ρ) (paths : List Path) :
    Commutes ρ g (placePaths paths) (placePaths (paths.map (List.map (Step.map ρ)))) := by
  induction paths with
  | nil => exact .pure _
  | cons path rest ih => exact (commutes_placePath hρ path).bind fun _ => ih.map _

theorem commutes_placeValues (values : List Json) :
    Commutes ρ g (placeValues values) (placeValues (values.map g)) := by
  induction values with
  | nil => exact .pure _
  | cons v rest ih => exact (commutes_placeValue v).bind fun _ => ih.map _

/-- Placing the comparisons behind the first one commutes with any change of their values. -/
theorem commutes_placeRest (comparisons : List (CompareOp × Json)) :
    Commutes ρ g (Comparator.place.placeRest comparisons)
      (Comparator.place.placeRest (comparisons.map (Prod.map id g))) := by
  induction comparisons with
  | nil => exact .pure _
  | cons comparison rest ih => exact (commutes_placeValue comparison.2).bind fun _ => ih.map _

/-- Placing the subject of a test, a path or the size of one, commutes with an injective renaming.
-/
theorem Subject.commutes_place (hρ : Function.Injective ρ) (subject : Subject String) :
    Commutes ρ g subject.place (subject.map ρ).place := by
  cases subject with
  | itself path => exact (commutes_placePath hρ path).map _
  | size path => exact (commutes_placePath hρ path).map _

/-- Placing a clause commutes with an injective renaming, by induction on the clause. -/
theorem Clause.commutes_place (hρ : Function.Injective ρ) (clause : Clause String Json) :
    Commutes ρ g clause.place (clause.map ρ g).place := by
  induction clause with
  | compare subject first rest =>
      exact (subject.commutes_place hρ).bind fun _ =>
        (commutes_placeValue first.2).bind fun _ => (commutes_placeRest rest).map _
  | between path lower upper =>
      exact (commutes_placePath hρ path).bind fun _ =>
        (commutes_placeValue lower).bind fun _ => (commutes_placeValue upper).map _
  | oneOf path first rest =>
      exact (commutes_placePath hρ path).bind fun _ =>
        (commutes_placeValue first).bind fun _ => (commutes_placeValues rest).map _
  | call callee path argument =>
      cases argument with
      | none => exact (commutes_placePath hρ path).map _
      | some v => exact (commutes_placePath hρ path).bind fun _ => (commutes_placeValue v).map _
  | negate clause ih => exact ih.map _
  | join op left right ihl ihr => exact ihl.bind fun _ => ihr.map _

theorem Operand.commutes_place (hρ : Function.Injective ρ) (operand : Operand String Json) :
    Commutes ρ g operand.place (operand.map ρ g).place := by
  cases operand with
  | path p => exact (commutes_placePath hρ p).map _
  | fallback p v => exact (commutes_placePath hρ p).bind fun _ => (commutes_placeValue v).map _
  | value v => exact (commutes_placeValue v).map _

/-- Placing what is assigned commutes with an injective renaming, in each of its forms. -/
theorem AssignedValue.commutes_place (hρ : Function.Injective ρ)
    (value : AssignedValue String Json) :
    Commutes ρ g value.place (value.map ρ g).place := by
  cases value with
  | operand o => exact (o.commutes_place hρ).map _
  | arithmetic left op right =>
      exact (left.commutes_place hρ).bind fun _ => (right.commutes_place hρ).map _

/-- Placing a change commutes with an injective renaming, be it an assignment or a removal. -/
theorem Change.commutes_place (hρ : Function.Injective ρ) (change : Change String Json) :
    Commutes ρ g change.place (change.map ρ g).place := by
  cases change with
  | set a =>
      exact (commutes_placePath hρ a.target).bind fun _ => (a.value.commutes_place hρ).map _
  | remove target => exact (commutes_placePath hρ target).map _

/-- Placing all changes of an update commutes with an injective renaming, by induction on the
changes. -/
theorem UpdateClauses.commutes_place (hρ : Function.Injective ρ)
    (changes : List (Change String Json)) :
    Commutes ρ g (place changes) (place (changes.map (Change.map ρ g))) := by
  refine Commutes.map ?_ _
  induction changes with
  | nil => exact .pure _
  | cons change rest ih => exact (change.commutes_place hρ).bind fun _ => ih.map _

/-- Placing a key condition commutes with an injective renaming, with and without a test of the sort
key. -/
theorem KeyClause.commutes_place (hρ : Function.Injective ρ) (key : KeyClause String Json) :
    Commutes ρ g key.place (key.map ρ g).place := by
  obtain ⟨partitionKey, partition, sort⟩ := key
  refine (commutes_placePath hρ partitionKey).bind fun _ =>
    (commutes_placeValue partition).bind fun _ => ?_
  cases sort with
  | none => exact .pure _
  | some sort => exact (sort.commutes_place hρ).map _

end Commutes

/-! ### Runs on different names and values -/

/-- The dictionaries of two requests: the names of the second one are changed, and its values stand
in the places of those of the first one, in their order. -/
structure Mirrors (ρ : String → String) (literals literals' : List Json) (r r' : Registry) :
    Prop where
  nameDict_eq : r'.nameDict = r.nameDict.mapValues ρ
  valueDict_eq : ∃ keys : List String, keys.Nodup ∧
    keys.length = literals.length ∧ r.valueDict = Dict.ofList (keys.zip literals) ∧
    keys.length = literals'.length ∧ r'.valueDict = Dict.ofList (keys.zip literals')

/-- Values with their placeholders. The placeholders alone are the same for two registries that
mirror each other, which is why they are split off here. -/
theorem valueDict_eq_zip {r : Registry} {literals : List Json}
    (h : r.values.map Prod.snd = literals) :
    (r.values.map fun entry => entry.1.text).length = literals.length ∧
      r.valueDict = Dict.ofList ((r.values.map fun entry => entry.1.text).zip literals) := by
  subst h
  refine ⟨by simp, congrArg Dict.ofList ?_⟩
  rw [List.zip_map']

/-- Two registries that become equal when the values are blanked out and the names are changed
mirror each other. The invariant is needed for the dictionaries, whose keys have to be distinct. -/
theorem mirrors_of_map {ρ : String → String} {r r' : Registry} (wellFormed : r.WellFormed)
    (h : r'.map id blank = r.map ρ blank) :
    Mirrors ρ (r.values.map Prod.snd) (r'.values.map Prod.snd) r r' := by
  have names : r'.names = r.names.map (Prod.map id ρ) := by
    have := congrArg Registry.names h
    simpa [Registry.map] using this
  have placeholders : r'.values.map Prod.fst = r.values.map Prod.fst := by
    have := congrArg (List.map Prod.fst) (congrArg Registry.values h)
    simpa [Registry.map, Function.comp_def] using this
  have keys :
      r'.values.map (fun entry => entry.1.text) = r.values.map fun entry => entry.1.text := by
    have texts := congrArg (List.map ValuePlaceholder.text) placeholders
    simpa [List.map_map, Function.comp_def] using texts
  refine ⟨?_, _, ?_, (valueDict_eq_zip rfl).1, (valueDict_eq_zip rfl).2, ?_⟩
  · rw [nameDict, nameDict, names, List.map_map, ← Dict.ofList_mapValues, List.map_map]
    rfl
  · simpa [List.map_map, Function.comp_def] using wellFormed.nodup_valueTexts
  · rw [← keys]
    exact valueDict_eq_zip rfl

/-- Two runs on an empty registry that make the same text, the second one of an expression with
changed names and with other values. -/
structure SameText (ρ : String → String) (literals literals' : List Json)
    (run run' : Except ExpressionError String × Registry) : Prop where
  /-- Both make the same text, or both fail, the second one with an error about changed names. -/
  outcome_eq : run'.1 = run.1.mapError (ExpressionError.map ρ)
  mirrors : ∀ text, run.1 = .ok text → Mirrors ρ literals literals' run.2 run'.2

/-- A registry with the given values. -/
def Registers (r : Registry) (literals : List Json) : Prop :=
  r.WellFormed ∧ r.values.map Prod.snd = literals

/-- What was placed in an empty registry is all that it holds, so its values are those of the
expression. -/
theorem Registry.Placed.registers {r : Registry} {names : List NameEntry}
    {values : List ValueEntry} {literals : List Json} (h : Placed .empty r names values)
    (hvalues : values.map Prod.snd = literals) : Registers r literals := by
  refine ⟨wellFormed_empty.of_grows h.grows, ?_⟩
  rw [h.values_eq]
  exact hvalues

section SameText

variable {ρ : String → String} {x x' : Allocation α} {draft draft' : Except ExpressionError δ}
  {place : δ → StateM Registry α} {outline : (String → String) → δ → δ}
  {literals : δ → List Json} {ls ls' : List Json}

/-- Compilations with drafts that are alike make the same text. The hypotheses say what differs
between kinds of expressions: that the placement of a draft commutes with renamings, and that it
registers the values of the draft and no others. -/
theorem sameText_of_follows (text : α → String) (h : Follows x draft place)
    (h' : Follows x' draft' place)
    (alike : Alike ρ (fun d d' => outline id d' = outline ρ d) draft draft')
    (hρ : Function.Injective ρ)
    (commutes : ∀ {ρ : String → String}, Function.Injective ρ → ∀ d,
      Commutes ρ blank (place d) (place (outline ρ d)))
    (registers : ∀ d, Registers ((place d).run .empty).2 (literals d))
    (hliterals : ∀ d, draft = .ok d → literals d = ls)
    (hliterals' : ∀ d, draft' = .ok d → literals d = ls') :
    SameText ρ ls ls' ((do return text (← x) : Allocation String).run.run .empty)
      ((do return text (← x') : Allocation String).run.run .empty) := by
  cases draft with
  | error cause =>
      cases draft' with
      | ok d' => exact alike.elim
      | error cause' =>
          obtain rfl : cause' = cause.map ρ := alike
          rw [run_bind_error (h _).1, run_bind_error (h' _).1]
          exact ⟨rfl, nofun⟩
  | ok d =>
      cases draft' with
      | error cause' => exact alike.elim
      | ok d' =>
          -- both drafts without values are the same draft, and so are the runs that place them
          have first := commutes hρ d .empty
          have second := commutes Function.injective_id d' .empty
          rw [show outline id d' = outline ρ d from alike] at second
          obtain ⟨out, registry⟩ := Prod.mk.inj (second.symm.trans first)
          rw [run_bind_ok (h _), run_bind_ok (h' _), out]
          refine ⟨rfl, fun _ _ => ?_⟩
          have mirrors := mirrors_of_map (registers d).1 registry
          rwa [(registers d).2, (registers d').2, hliterals d rfl, hliterals' d' rfl] at mirrors

end SameText

/-- Drafts with the same outline are alike, for the kinds of expressions whose draft cannot fail. -/
theorem alike_ok (ρ : String → String) (outline : (String → String) → δ → δ) {d d' : δ}
    (h : outline id d' = outline ρ d) :
    Alike ρ (fun d d' => outline id d' = outline ρ d) (.ok d) (.ok d') :=
  h

/-- A computation that does not fail follows its input. -/
theorem follows_lift (place : δ → StateM Registry α) (d : δ) :
    Follows (liftM (place d) : Allocation α) (.ok d) place :=
  fun _ => rfl

/-- The values in the registry are those of the clause, in the order in which they occur. -/
theorem Clause.registers (clause : Clause String Json) :
    Registers (clause.place.run .empty).2 clause.literals := by
  obtain ⟨entries, rfl, -, placed⟩ := clause.exists_entries .empty
  exact placed.registers (literals_map _ _ _).symm

/-- The values in the registry are those of the changes, in the order in which they occur. -/
theorem UpdateClauses.registers (changes : List (Change String Json)) :
    Registers ((place changes).run .empty).2 (changes.flatMap Change.literals) := by
  obtain ⟨entries, rfl, -, placed⟩ := Change.exists_entries_placeAll changes .empty
  refine placed.registers ?_
  rw [List.map_flatMap, List.flatMap_map]
  simp

/-- The values in the registry are those of the key condition, that of the partition before those of
the sort key. -/
theorem KeyClause.registers (key : KeyClause String Json) :
    Registers (key.place.run .empty).2 key.literals := by
  obtain ⟨entries, rfl, -, placed⟩ := key.exists_entries .empty
  exact placed.registers (literals_map _ _ _).symm

/-! ### Every step -/

section Steps

variable {ρ : String → String} (hρ : Function.Injective ρ)

include hρ

/-- Paths that differ by an injective renaming have the same text, and no values. -/
theorem sameText_path {p p' : Path} (h : p'.map (Step.map id) = p.map (Step.map ρ)) :
    SameText ρ [] [] ((RegistryStep.path p).text.run.run .empty)
      ((RegistryStep.path p').text.run.run .empty) := by
  have registers (p : Path) : Registers ((placePath p).run .empty).2 [] := by
    obtain ⟨_, _, _, placed⟩ := exists_entries_placePath p .empty
    exact placed.registers rfl
  exact sameText_of_follows PlacedPath.text (follows_lift placePath p) (follows_lift placePath p')
    (alike_ok ρ (fun ρ => List.map (Step.map ρ)) h) hρ (fun hρ p => commutes_placePath hρ p)
    registers (fun _ _ => rfl) fun _ _ => rfl

/-- Any two values have the same text, that of the first placeholder. -/
theorem sameText_value (v v' : Json) :
    SameText ρ [v] [v'] ((RegistryStep.value v).text.run.run .empty)
      ((RegistryStep.value v').text.run.run .empty) := by
  have registers (v : Json) : Registers ((placeValue v).run .empty).2 [v] :=
    (placed_placeValue v .empty).registers rfl
  exact sameText_of_follows ValuePlaceholder.text (follows_lift placeValue v)
    (follows_lift placeValue v') (alike_ok ρ (fun _ => blank) rfl) hρ
    (fun _ v => commutes_placeValue v) registers
    (fun _ h => congrArg ([·]) (Except.ok.inj h).symm)
    fun _ h => congrArg ([·]) (Except.ok.inj h).symm

/-- Conditions with the same outline have the same text, or fail with the same error up to the
renaming. -/
theorem sameText_condition {c c' : Condition} (h : c'.outline id = c.outline ρ) :
    SameText ρ c.literals c'.literals ((RegistryStep.condition c).text.run.run .empty)
      ((RegistryStep.condition c').text.run.run .empty) := by
  have draft := c.draft_outline ρ [] .and
  have draft' := c'.draft_outline id [] .and
  rw [h] at draft'
  exact sameText_of_follows Clause.text c.follows_compile c'.follows_compile
    (draft.join draft') hρ (fun hρ d => d.commutes_place hρ) Clause.registers
    (fun _ => Condition.literals_draft) fun _ => Condition.literals_draft

/-- Updates with the same outline have the same text, or both have nothing to do. -/
theorem sameText_update {tree tree' : UpdateTree} (h : tree'.outline id = tree.outline ρ) :
    SameText ρ tree.literals tree'.literals ((RegistryStep.update tree).text.run.run .empty)
      ((RegistryStep.update tree').text.run.run .empty) := by
  have draft := tree.draft_outline ρ
  have draft' := tree'.draft_outline id
  rw [h] at draft'
  exact sameText_of_follows UpdateClauses.text tree.follows_compile tree'.follows_compile
    (draft.join draft') hρ (fun hρ d => UpdateClauses.commutes_place hρ d)
    UpdateClauses.registers (fun _ => UpdateTree.literals_draft)
    fun _ => UpdateTree.literals_draft

/-- Key conditions with the same outline have the same text, with and without a test of the sort
key. -/
theorem sameText_keyCondition {key key' : KeyCondition} (h : key'.outline id = key.outline ρ) :
    SameText ρ key.literals key'.literals ((RegistryStep.keyCondition key).text.run.run .empty)
      ((RegistryStep.keyCondition key').text.run.run .empty) := by
  have draft := key.draft_outline ρ
  have draft' := key'.draft_outline id
  rw [h] at draft'
  exact sameText_of_follows KeyClause.text key.follows_compile key'.follows_compile
    (draft.join draft') hρ (fun hρ d => d.commutes_place hρ) KeyClause.registers
    (fun _ => KeyCondition.literals_draft) fun _ => KeyCondition.literals_draft

/-- Projections with the same outline have the same text, and no values. -/
theorem sameText_projection {paths paths' : List Path}
    (h : paths'.map (List.map (Step.map id)) = paths.map (List.map (Step.map ρ))) :
    SameText ρ [] [] ((RegistryStep.projection paths).text.run.run .empty)
      ((RegistryStep.projection paths').text.run.run .empty) := by
  have registers (paths : List Path) : Registers ((placePaths paths).run .empty).2 [] := by
    obtain ⟨_, _, _, placed⟩ := exists_entries_placePaths paths .empty
    exact placed.registers rfl
  exact sameText_of_follows projectionText (follows_lift placePaths paths)
    (follows_lift placePaths paths') (alike_ok ρ (fun ρ => List.map (List.map (Step.map ρ))) h) hρ
    (fun hρ p => commutes_placePaths hρ p) registers (fun _ _ => rfl) fun _ _ => rfl

end Steps

/-- Whatever is compiled with an empty registry, the text depends on names only through which of
them are the same, and not on values. What the placeholders stand for are the names and the values
of each expression, in the same places. That the renaming is injective is all that is asked of it:
names may become anything, operators and placeholders included. -/
theorem sameText_of_outline {ρ : String → String} (hρ : Function.Injective ρ)
    {step step' : RegistryStep} (h : step'.outline id = step.outline ρ) :
    SameText ρ step.literals step'.literals (step.text.run.run .empty)
      (step'.text.run.run .empty) := by
  cases step with
  | path p =>
      cases step' with
      | path p' => exact sameText_path hρ (RegistryStep.path.inj h)
      | _ => cases h
  | value v =>
      cases step' with
      | value v' => exact sameText_value hρ v v'
      | _ => cases h
  | condition c =>
      cases step' with
      | condition c' => exact sameText_condition hρ (RegistryStep.condition.inj h)
      | _ => cases h
  | update tree =>
      cases step' with
      | update tree' => exact sameText_update hρ (RegistryStep.update.inj h)
      | _ => cases h
  | keyCondition key =>
      cases step' with
      | keyCondition key' => exact sameText_keyCondition hρ (RegistryStep.keyCondition.inj h)
      | _ => cases h
  | projection paths =>
      cases step' with
      | projection paths' => exact sameText_projection hρ (RegistryStep.projection.inj h)
      | _ => cases h

/-- A name that would close a parenthesis and open another one makes the text of any other name. -/
theorem sameText_of_outline_field :
    ∃ step step' : RegistryStep, step.literals = [.bool true] ∧ step'.literals = [.string " AND "] ∧
      SameText ("#attr0 = :val1) OR (" ++ ·) step.literals step'.literals
        (step.text.run.run .empty) (step'.text.run.run .empty) ∧
      (step.text.run.run .empty).1 = .ok "#attr0 <> :val1" := by
  have injective : Function.Injective fun name => "#attr0 = :val1) OR (" ++ name :=
    fun _ _ h => (String.append_right_inj _).1 h
  have outlines :
      (RegistryStep.condition (.field "#attr0 = :val1) OR (a"
        (.compareWith .ne (.string " AND ")))).outline id =
      (RegistryStep.condition (.field "a" (.compareWith .ne (.bool true)))).outline
        ("#attr0 = :val1) OR (" ++ ·) := rfl
  exact ⟨_, _, rfl, rfl, sameText_of_outline injective outlines, rfl⟩

end DocumentTable
