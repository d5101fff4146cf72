import DocumentTable.Proofs.Emission

/-!
# Runs of a registry

One registry serves all expressions of a request. Whatever is compiled with it and in whatever
order, no placeholder is given out twice, and what one stands for never changes.

## Main definitions

* `RegistryStep`: what is done with a registry
* `Registry.after`: the registry after a run of steps
* `Registry.Consistent`: what holds of the registry between steps
* `Registry.Extends`: what stays when steps follow

## Main results

* `Registry.after_consistent`: the registry after any run, and what later steps leave as it was

## Design notes

A step that fails is a step like any other: it leaves a registry, from which the run goes on.
-/

namespace DocumentTable

open Registry

/-- What is done with the registry of a request. -/
inductive RegistryStep where
  | path (path : Path)
  | value (value : Json)
  | condition (condition : Condition)
  | update (tree : UpdateTree)
  | keyCondition (key : KeyCondition)
  | projection (paths : List Path)

/-- The text that a step makes. -/
def RegistryStep.text : RegistryStep → Allocation String
  | path p => do return PlacedPath.text (← placePath p)
  | value v => do return (← placeValue v).text
  | condition c => do return (← c.compile).text
  | update tree => do return (← tree.compile).text
  | keyCondition key => do return (← key.compile).text
  | projection paths => do return projectionText (← placePaths paths)

/-- A success of a compilation with a text to show is a success of the compilation. -/
private theorem run_map_ok {α : Type} {x : Allocation α} {f : α → String} {r s : Registry}
    {text : String} (run : (do return f (← x) : Allocation String).run.run r = (.ok text, s)) :
    ∃ a, x.run.run r = (.ok a, s) ∧ f a = text := by
  generalize first : x.run.run r = result
  obtain ⟨outcome, middle⟩ := result
  cases outcome with
  | error cause =>
      rw [run_bind_error (congrArg Prod.fst first)] at run
      cases run
  | ok a =>
      rw [run_bind_ok first] at run
      cases run
      exact ⟨a, rfl, rfl⟩

/-- A compilation with a text to show does to a registry what the compilation does. -/
private theorem run_map_registry {α : Type} (x : Allocation α) (f : α → String) (r : Registry) :
    ((do return f (← x) : Allocation String).run.run r).2 = (x.run.run r).2 := by
  generalize first : x.run.run r = result
  obtain ⟨outcome, middle⟩ := result
  cases outcome with
  | error cause => rw [run_bind_error (congrArg Prod.fst first), first]
  | ok a =>
      rw [run_bind_ok first]
      rfl

namespace Registry

/-- The registry after a step. -/
def afterStep (r : Registry) (step : RegistryStep) : Registry :=
  (step.text.run.run r).2

/-- The registry after a run of steps. -/
def after (steps : List RegistryStep) : Registry :=
  steps.foldl afterStep empty

theorem after_append (steps rest : List RegistryStep) :
    after (steps ++ rest) = rest.foldl afterStep (after steps) :=
  List.foldl_append

/-- What holds of the registry of a request between steps. -/
structure Consistent (r : Registry) : Prop where
  /-- The next number counts what was given out. -/
  next_eq : r.next = r.names.length + r.values.length
  /-- Names and values together have the numbers before the next one, each of them once. -/
  numbers_perm :
    (r.names.map (fun entry => entry.1.number) ++
      r.values.map fun entry => entry.1.number).Perm (List.range r.next)
  /-- A name has a placeholder if and only if the placeholder stands for the name. -/
  placeholder?_iff : ∀ n p, r.placeholder? n = some p ↔ r.nameDict.get? p.text = some n
  /-- Whatever stands for a name is its placeholder. -/
  placeholder_of_name : ∀ key n, r.nameDict.get? key = some n →
    ∃ p, r.placeholder? n = some p ∧ p.text = key
  /-- No name is lost. -/
  nameDict_perm : r.nameDict.Perm (r.names.map fun entry => (entry.1.text, entry.2))
  /-- Values are kept in the order of their numbers, of which no two are the same. -/
  values_increasing : r.values.Pairwise fun a b => a.1.number < b.1.number
  /-- No value is lost. -/
  valueDict_perm : r.valueDict.Perm (r.values.map fun entry => (entry.1.text, entry.2))
  /-- Behind a placeholder is the value that it was given out for, and nothing else is. -/
  value?_iff : ∀ key v, r.value? key = some v ↔ ∃ p, (p, v) ∈ r.values ∧ p.text = key
  /-- The values of a request are found as well. -/
  get?_valueDict : ∀ key, r.valueDict.get? key = r.value? key

/-- What stays when steps follow: placeholders stand for what they stood for. -/
structure Extends (r s : Registry) : Prop where
  names : ∀ key n, r.nameDict.get? key = some n → s.nameDict.get? key = some n
  values : ∀ key v, r.value? key = some v → s.value? key = some v

/-- A registry that satisfies the invariant is consistent: it has as many numbers as entries, and no
placeholder for two things. -/
theorem WellFormed.consistent {r : Registry} (h : r.WellFormed) : r.Consistent where
  next_eq := by
    have := h.numbers_perm.length_eq
    rw [numbers, List.length_append, List.length_map, List.length_map, List.length_range] at this
    exact this.symm
  numbers_perm := h.numbers_perm
  placeholder?_iff n p := by
    -- the texts of placeholders are apart, so that an entry may be told by its text
    rw [h.placeholder?_eq_some, h.get?_nameDict]
    constructor
    · exact fun hmem => ⟨p, rfl, hmem⟩
    · rintro ⟨q, htext, hmem⟩
      rwa [NamePlaceholder.text_injective htext] at hmem
  placeholder_of_name key n hkey := by
    obtain ⟨p, htext, hmem⟩ := h.get?_nameDict.1 hkey
    exact ⟨p, h.placeholder?_eq_some.2 hmem, htext⟩
  nameDict_perm := Dict.ofList_perm h.nodup_nameTexts
  values_increasing := h.pairwise_values
  valueDict_perm := Dict.ofList_perm h.nodup_valueTexts
  value?_iff key v := by
    rw [h.value?_eq_some]
    constructor
    · rintro ⟨p, htext, hmem⟩
      exact ⟨p, hmem, htext⟩
    · rintro ⟨p, hmem, htext⟩
      exact ⟨p, htext, hmem⟩
  get?_valueDict key := by
    ext v
    rw [h.get?_valueDict, h.value?_eq_some]

/-- A registry that has grown extends the one that it has grown from, with all placeholders for what
they stood for. -/
theorem Grows.extends {r s : Registry} (h : r.WellFormed) (grows : Grows r s) : Extends r s where
  names key n hkey := by
    obtain ⟨p, htext, hmem⟩ := h.get?_nameDict.1 hkey
    exact (h.of_grows grows).get?_nameDict.2 ⟨p, htext, grows.names_prefix.subset hmem⟩
  values key v hkey := by
    obtain ⟨p, htext, hmem⟩ := h.value?_eq_some.1 hkey
    exact (h.of_grows grows).value?_eq_some.2 ⟨p, htext, grows.values_prefix.subset hmem⟩

/-- The references in a text stand for something, and for the same in another registry. -/
structure Keeps (r s : Registry) (text : String) : Prop where
  names : ∀ key ∈ nameRefs text, ∃ n, r.nameDict.get? key = some n ∧ s.nameDict.get? key = some n
  values : ∀ key ∈ valueRefs text, ∃ v, r.value? key = some v ∧ s.value? key = some v

/-! ### Steps -/

/-- A step does nothing to a registry but give out placeholders, also when it fails. A failure takes
nothing back. -/
theorem grows_afterStep (r : Registry) (step : RegistryStep) : Grows r (r.afterStep step) := by
  cases step with
  | path path =>
      obtain ⟨_, _, _, placed⟩ := exists_entries_placePath path r
      exact placed.grows
  | value v => exact .value v (.refl r)
  | condition c =>
      rw [afterStep, RegistryStep.text, run_map_registry]
      exact c.follows_compile.grows Clause.grows_place r
  | update tree =>
      rw [afterStep, RegistryStep.text, run_map_registry]
      exact tree.follows_compile.grows UpdateClauses.grows_place r
  | keyCondition key =>
      rw [afterStep, RegistryStep.text, run_map_registry]
      refine key.follows_compile.grows ?_ r
      intro clause r
      obtain ⟨_, _, _, placed⟩ := clause.exists_entries r
      exact placed.grows
  | projection paths =>
      obtain ⟨_, placed, _⟩ := emits_projectionText paths r
      exact placed.grows

/-- A text that a step makes refers to what was given out for it, and to all of it. -/
theorem RegistryStep.emits {step : RegistryStep} {r : Registry} {text : String}
    (ok : (step.text.run.run r).1 = .ok text) :
    ∃ names values, Emits r (r.afterStep step) [text] names values := by
  have run : step.text.run.run r = (.ok text, r.afterStep step) := Prod.ext ok rfl
  cases step with
  | path path =>
      obtain ⟨entries, -, out, placed⟩ := exists_entries_placePath path r
      cases run
      refine ⟨pathNames entries, [], .single placed ?_ ?_⟩
      · intro key
        show key ∈ nameRefs (PlacedPath.text ((placePath path).run r).1) ↔ _
        rw [out, nameRefs, PlacedPath.tokens_text, filterMap_nameRef?_stepsTokens, pathNames_map,
          List.map_map]
        rfl
      · show valueRefs (PlacedPath.text ((placePath path).run r).1) = _
        rw [valueRefs, PlacedPath.tokens_text, filterMap_valueRef?_stepsTokens]
        rfl
  | value v =>
      cases run
      refine ⟨[], [(⟨r.next⟩, v)], .single (placed_placeValue v r) ?_ ?_⟩
      · intro key
        rw [nameRefs, tokens_valueText]
        rfl
      · rw [valueRefs, tokens_valueText]
        rfl
  | condition c =>
      obtain ⟨clause, compiled, rfl⟩ := run_map_ok (x := c.compile) run
      exact Condition.emits compiled
  | update tree =>
      obtain ⟨clauses, compiled, rfl⟩ := run_map_ok (x := tree.compile) run
      exact UpdateTree.emits compiled
  | keyCondition key =>
      obtain ⟨clause, compiled, rfl⟩ := run_map_ok (x := key.compile) run
      exact KeyCondition.emits compiled
  | projection paths =>
      obtain ⟨names, emits⟩ := emits_projectionText paths r
      cases run
      exact ⟨names, [], emits⟩

/-! ### Runs -/

/-- Steps that follow only give out more placeholders, by induction on them. -/
theorem grows_after_append (steps rest : List RegistryStep) :
    Grows (after steps) (after (steps ++ rest)) := by
  rw [after_append]
  -- a step may be done with any registry, also if no run leaves it
  generalize after steps = r
  induction rest generalizing r with
  | nil => exact .refl r
  | cons step rest ih => exact (grows_afterStep r step).trans (ih _)

/-- Every registry that steps lead to satisfies the invariant, since each of them only gives out
placeholders. -/
theorem wellFormed_after (steps : List RegistryStep) : (after steps).WellFormed :=
  wellFormed_empty.of_grows (grows_after_append [] steps)

theorem after_concat (steps : List RegistryStep) (step : RegistryStep) :
    after (steps ++ [step]) = (after steps).afterStep step := by
  rw [after_append]
  rfl

/-- The placeholders of a path stand for its names, also after other steps. -/
theorem resolve_path (steps rest : List RegistryStep) (path : Path) :
    ((placePath path).run (after steps)).1.map
        (Step.map fun p => (after (steps ++ .path path :: rest)).nameDict.get? p.text) =
      path.map (Step.map some) := by
  obtain ⟨entries, draft, out, placed⟩ := exists_entries_placePath path (after steps)
  have grows := grows_after_append (steps ++ [.path path]) rest
  rw [← List.append_cons, after_concat] at grows
  subst draft
  rw [out, List.map_map, List.map_map, Step.map_comp_map, Step.map_comp_map]
  apply map_congr_pathNames
  intro entry hentry
  exact (wellFormed_after _).get?_nameDict.2
    ⟨entry.1, rfl, grows.names_prefix.subset (placed.mem_names entry hentry)⟩

/-- The placeholder of a value stands for the value, also after other steps. -/
theorem resolve_value (steps rest : List RegistryStep) (v : Json) :
    (after (steps ++ .value v :: rest)).value? ((placeValue v).run (after steps)).1.text =
      some v := by
  have grows := grows_after_append (steps ++ [.value v]) rest
  rw [← List.append_cons, after_concat] at grows
  have placed : (⟨(after steps).next⟩, v) ∈ ((after steps).afterStep (.value v)).values :=
    List.mem_append_right _ (List.mem_singleton_self _)
  exact (wellFormed_after _).value?_eq_some.2 ⟨_, rfl, grows.values_prefix.subset placed⟩

/-- After any run the registry is consistent, and whatever steps follow, also if they fail, all
placeholders go on to stand for what they stood for: the references in the text that a step has
made, the names of a path and a value that were given out. A run is any list of steps, so that there
is no hypothesis; whether a step made a text is asked where its references are spoken of. -/
theorem after_consistent (steps : List RegistryStep) (step : RegistryStep)
    (rest : List RegistryStep) :
    (after steps).Consistent ∧ Extends (after steps) (after (steps ++ rest)) ∧
      (∀ text, (step.text.run.run (after steps)).1 = .ok text →
        Keeps (after (steps ++ [step])) (after (steps ++ step :: rest)) text) ∧
      (∀ path : Path, ((placePath path).run (after steps)).1.map
          (Step.map fun p => (after (steps ++ .path path :: rest)).nameDict.get? p.text) =
        path.map (Step.map some)) ∧
      ∀ v, (after (steps ++ .value v :: rest)).value? ((placeValue v).run (after steps)).1.text =
        some v := by
  refine ⟨(wellFormed_after steps).consistent,
    (grows_after_append steps rest).extends (wellFormed_after steps), ?_,
    resolve_path steps rest, resolve_value steps rest⟩
  intro text ok
  -- the step has given out whatever its text refers to, and nothing of it is lost later
  obtain ⟨names, values, emits⟩ := RegistryStep.emits ok
  rw [← after_concat] at emits
  have wellFormed := wellFormed_after (steps ++ [step])
  have later : Extends (after (steps ++ [step])) (after (steps ++ step :: rest)) := by
    have grows := grows_after_append (steps ++ [step]) rest
    rw [← List.append_cons] at grows
    exact grows.extends wellFormed
  constructor
  · intro key hkey
    obtain ⟨entry, hentry, htext⟩ := emits.exists_mem_names (by simpa using hkey)
    have now := wellFormed.get?_nameDict.2 ⟨entry.1, htext, hentry⟩
    exact ⟨entry.2, now, later.names key entry.2 now⟩
  · intro key hkey
    obtain ⟨entry, hentry, htext⟩ := emits.exists_mem_values (by simpa using hkey)
    have now := wellFormed.value?_eq_some.2 ⟨entry.1, htext, hentry⟩
    exact ⟨entry.2, now, later.values key entry.2 now⟩

/-- A condition on a name that has a placeholder, followed by an update that fails. -/
theorem after_consistent_condition : ∃ (steps : List RegistryStep) (step : RegistryStep)
    (rest : List RegistryStep), (step.text.run.run (after steps)).1 = .ok "#attr0 = :val1" ∧
      (after steps).Consistent ∧
      Keeps (after (steps ++ [step])) (after (steps ++ step :: rest)) "#attr0 = :val1" := by
  obtain ⟨consistent, -, keeps, -⟩ := after_consistent [.path (.ofName "a")]
    (.condition (.field "a" (.compareWith .eq .null))) [.update [], .value .null]
  exact ⟨_, _, _, rfl, consistent, keeps _ rfl⟩

end Registry

end DocumentTable
