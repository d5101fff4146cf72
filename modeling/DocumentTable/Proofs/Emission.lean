import DocumentTable.Proofs.Draft
import DocumentTable.Proofs.ExpressionTokens

/-!
# Emitted texts

Texts that are made with a registry refer to the placeholders that were given out for them: to each
value once, to each name wherever it occurs, and to nothing else.

## Main definitions

* `Registry.Emits`: texts and what making them has done to a registry

## Main results

* `Condition.emits`, `UpdateTree.emits`, `KeyCondition.emits`, `emits_projectionText`: the texts of
  all expressions are of this kind
-/

namespace DocumentTable

open Registry

namespace Registry

/-- Texts whose references are the given entries, and what making them has done to a registry. -/
structure Emits (r s : Registry) (texts : List String) (names : List NameEntry)
    (values : List ValueEntry) : Prop where
  placed : Placed r s names values
  /-- The names that the texts refer to are those that have been looked up. -/
  mem_nameRefs : ∀ key, key ∈ texts.flatMap nameRefs ↔ key ∈ names.map fun entry => entry.1.text
  /-- The texts refer once to each value that was given a placeholder. -/
  valueRefs_eq : texts.flatMap valueRefs = values.map fun entry => entry.1.text

variable {r s t : Registry} {texts texts' : List String} {names names' : List NameEntry}
  {values values' : List ValueEntry}

theorem Emits.nil (r : Registry) : Emits r r [] [] [] :=
  ⟨.refl r, fun _ => .rfl, rfl⟩

/-- Texts that are made one after the other refer to what was given out for either of them. -/
theorem Emits.append (h : Emits r s texts names values) (h' : Emits s t texts' names' values') :
    Emits r t (texts ++ texts') (names ++ names') (values ++ values') where
  placed := h.placed.trans h'.placed
  mem_nameRefs key := by
    rw [List.flatMap_append, List.mem_append, h.mem_nameRefs, h'.mem_nameRefs, List.map_append,
      List.mem_append]
  valueRefs_eq := by rw [List.flatMap_append, h.valueRefs_eq, h'.valueRefs_eq, List.map_append]

/-- The references in a single text are what was given out for it, values once and in their order.
-/
theorem Emits.single {text : String} (placed : Placed r s names values)
    (mem_nameRefs : ∀ key, key ∈ nameRefs text ↔ key ∈ names.map fun entry => entry.1.text)
    (valueRefs_eq : valueRefs text = values.map fun entry => entry.1.text) :
    Emits r s [text] names values where
  placed := placed
  mem_nameRefs key := by rw [List.flatMap_singleton, mem_nameRefs]
  valueRefs_eq := by rw [List.flatMap_singleton, valueRefs_eq]

/-- A reference to a name is to an entry of the registry. -/
theorem Emits.exists_mem_names (h : Emits r s texts names values) {key : String}
    (hkey : key ∈ texts.flatMap nameRefs) : ∃ entry ∈ s.names, entry.1.text = key := by
  obtain ⟨entry, hentry, rfl⟩ := List.mem_map.1 ((h.mem_nameRefs key).1 hkey)
  exact ⟨entry, h.placed.mem_names entry hentry, rfl⟩

/-- A reference to a value is to an entry of the registry. -/
theorem Emits.exists_mem_values (h : Emits r s texts names values) {key : String}
    (hkey : key ∈ texts.flatMap valueRefs) : ∃ entry ∈ s.values, entry.1.text = key := by
  rw [h.valueRefs_eq] at hkey
  obtain ⟨entry, hentry, rfl⟩ := List.mem_map.1 hkey
  rw [h.placed.values_eq]
  exact ⟨entry, List.mem_append_right _ hentry, rfl⟩

end Registry

section Follows

variable {α δ : Type} {x : Allocation α} {draft : Except ExpressionError δ}
  {place : δ → StateM Registry α}

/-- A compilation that succeeds has placed its draft, and done nothing else to the registry. -/
theorem Follows.exists_draft (h : Follows x draft place) {r s : Registry} {a : α}
    (run : x.run.run r = (.ok a, s)) : ∃ d, draft = .ok d ∧ (place d).run r = (a, s) := by
  cases draft with
  | error cause =>
      have result := (h r).1
      rw [run] at result
      cases result
  | ok d =>
      have result := h r
      rw [run, Prod.mk.injEq, Except.ok.injEq] at result
      exact ⟨d, rfl, Prod.ext result.1.symm result.2.symm⟩

/-- A compilation does nothing but give out placeholders, also when it fails. -/
theorem Follows.grows (h : Follows x draft place) (hplace : ∀ d r, Grows r ((place d).run r).2)
    (r : Registry) : Grows r (x.run.run r).2 := by
  cases draft with
  | error cause => exact (h r).2
  | ok d =>
      rw [h r]
      exact hplace d r

end Follows

/-- The text of a condition refers to what was given out for it, and to all of it. -/
theorem Condition.emits {condition : Condition} {r s : Registry} {clause : PlacedClause}
    (run : condition.compile.run.run r = (.ok clause, s)) :
    ∃ names values, Emits r s [clause.text] names values := by
  -- the clause has one side of its entries, and the registry has the entries
  obtain ⟨draft, -, place⟩ := condition.follows_compile.exists_draft run
  obtain ⟨entries, -, out, placed⟩ := draft.exists_entries r
  rw [place] at out placed
  subst out
  refine ⟨entries.names, entries.literals, .single placed ?_ ?_⟩
  · intro key
    rw [Clause.mem_nameRefs_text, Clause.names_map, List.map_map]
    rfl
  · rw [Clause.valueRefs_text, Clause.literals_map, List.map_map]
    rfl

/-- The text of an update refers to what was given out for it, and to all of it. -/
theorem UpdateTree.emits {tree : UpdateTree} {r s : Registry} {clauses : PlacedUpdate}
    (run : tree.compile.run.run r = (.ok clauses, s)) :
    ∃ names values, Emits r s [clauses.text] names values := by
  obtain ⟨draft, -, place⟩ := tree.follows_compile.exists_draft run
  obtain ⟨entries, -, out, placed⟩ := Change.exists_entries_placeAll draft r
  obtain ⟨rfl, rfl⟩ := Prod.mk.inj place.symm
  refine ⟨entries.flatMap Change.names, entries.flatMap Change.literals,
    .single placed ?_ ?_⟩
  · intro key
    show key ∈ nameRefs (UpdateClauses.ofChanges ((Change.placeAll draft).run r).1).text ↔ _
    rw [out, UpdateClauses.mem_nameRefs_text, List.flatMap_map, List.map_flatMap, List.map_flatMap]
    simp
  · show valueRefs (UpdateClauses.ofChanges ((Change.placeAll draft).run r).1).text = _
    rw [out, UpdateClauses.valueRefs_text, List.flatMap_map, List.map_flatMap, List.map_flatMap]
    simp [Function.comp_def]

/-- The text of a key condition refers to what was given out for it, and to all of it. -/
theorem KeyCondition.emits {key : KeyCondition} {r s : Registry} {clause : PlacedKeyClause}
    (run : key.compile.run.run r = (.ok clause, s)) :
    ∃ names values, Emits r s [clause.text] names values := by
  obtain ⟨draft, -, place⟩ := key.follows_compile.exists_draft run
  obtain ⟨entries, -, out, placed⟩ := draft.exists_entries r
  rw [place] at out placed
  subst out
  refine ⟨entries.names, entries.literals, .single placed ?_ ?_⟩
  · intro key
    rw [KeyClause.mem_nameRefs_text, KeyClause.names_map, List.map_map]
    rfl
  · rw [KeyClause.valueRefs_text, KeyClause.literals_map, List.map_map]
    rfl

/-- The text of a projection refers to what was given out for it. -/
theorem emits_projectionText (paths : List Path) (r : Registry) :
    ∃ names, Emits r ((placePaths paths).run r).2
      [projectionText ((placePaths paths).run r).1] names [] := by
  obtain ⟨entries, -, out, placed⟩ := exists_entries_placePaths paths r
  refine ⟨entries.flatMap pathNames, .single placed ?_ ?_⟩
  · intro key
    rw [mem_nameRefs_projectionText, out, List.flatMap_map, List.map_flatMap, List.map_flatMap]
    simp
  · exact valueRefs_projectionText _

end DocumentTable
