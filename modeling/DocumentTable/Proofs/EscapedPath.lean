import DocumentTable.Proofs.Run

/-!
# Paths with placeholders for their names

In an expression a path is written with placeholders for its names. From the text and from what the
placeholders stand for, the path is read back. So two paths never get the same text from one
registry, and a path gets the same text whenever it is asked for.

## Main definitions

* `Registry.escaped`: the text of a path with placeholders
* `readSteps?`, `readEscaped?`: the path of such a text, once its placeholders are looked up

## Main results

* `Registry.WellFormed.map_placePath`: a path is placed with the placeholders that its names have
  later on
* `Registry.readEscaped?_escaped`: the text of a path is read as the path at any later time
* `Registry.escaped_identifies`: in a run, texts of paths are equal if and only if the paths are

## Design notes

A name may hold a dot, a bracket or what looks like a placeholder. It is looked up and never looked
into, so it is one step all the same.
-/

namespace DocumentTable

/-! ### Reading -/

/-- The steps that tokens stand for. A name is looked up, and stands behind a dot unless it is the
first step. -/
def readSteps? (names : Dict String) : (first : Bool) → List Token → Option Path
  | _, [] => some []
  | true, .nameRef key :: rest => do
    return .name (← Dict.get? names key) :: (← readSteps? names false rest)
  | false, .mark '.' :: .nameRef key :: rest => do
    return .name (← Dict.get? names key) :: (← readSteps? names false rest)
  | _, .mark '[' :: .numeral digits :: .mark ']' :: rest => do
    return .index (← Path.readPosition digits) :: (← readSteps? names false rest)
  | _, _ => none

/-- The path that a text stands for. -/
def readEscaped? (names : Dict String) (text : String) : Option Path :=
  readSteps? names true (tokens text)

/-- Steps are read as what their placeholders stand for. -/
theorem readSteps?_stepsTokens {names : Dict String} {entries : List (Step NameEntry)}
    (known : ∀ entry ∈ pathNames entries, Dict.get? names entry.1.text = some entry.2)
    (first : Bool) :
    readSteps? names first (stepsTokens first (entries.map (Step.map Prod.fst))) =
      some (entries.map (Step.map Prod.snd)) := by
  induction entries generalizing first with
  | nil => cases first <;> rfl
  | cons step rest ih =>
      cases step with
      | name entry =>
          rw [pathNames_cons_name, List.forall_mem_cons] at known
          have step : ∀ first, readSteps? names first
              (stepsTokens first ((Step.name entry :: rest).map (Step.map Prod.fst))) = do
                return .name (← Dict.get? names entry.1.text) :: (←
                  readSteps? names false (stepsTokens false (rest.map (Step.map Prod.fst)))) := by
            intro first
            cases first <;> rfl
          rw [step, known.1, ih known.2]
          rfl
      | index i =>
          have step : readSteps? names first
              (stepsTokens first ((Step.index i :: rest).map (Step.map Prod.fst))) = do
                return .index (← Path.readPosition (Nat.toDigits 10 i.toNat)) :: (←
                  readSteps? names false (stepsTokens false (rest.map (Step.map Prod.fst)))) := by
            cases first <;> rfl
          rw [step, Path.readPosition_toDigits, ih known]
          rfl

namespace Registry

/-- The text of a path with placeholders for its names. -/
def escaped (r : Registry) (path : Path) : String :=
  PlacedPath.text ((placePath path).run r).1

variable {r s : Registry} {path : Path}

/-- Steps that follow the placing of a path only give out more placeholders. -/
theorem grows_path (steps rest : List RegistryStep) (path : Path) :
    Grows ((placePath path).run (after steps)).2 (after (steps ++ .path path :: rest)) := by
  have grows := grows_after_append (steps ++ [.path path]) rest
  rwa [← List.append_cons, after_concat] at grows

/-- The text of a path is read as the path, by any registry that has grown since. -/
theorem WellFormed.readEscaped?_escaped (wellFormed : s.WellFormed)
    (grows : Grows ((placePath path).run r).2 s) :
    readEscaped? s.nameDict (r.escaped path) = some path := by
  obtain ⟨entries, draft, out, placed⟩ := exists_entries_placePath path r
  have known : ∀ entry ∈ pathNames entries, Dict.get? s.nameDict entry.1.text = some entry.2 := by
    intro entry mem
    have registered := grows.names_prefix.subset (placed.mem_names entry mem)
    exact wellFormed.get?_nameDict.2 ⟨entry.1, rfl, registered⟩
  rw [readEscaped?, escaped, out, PlacedPath.tokens_text, readSteps?_stepsTokens known, draft]

/-- A path is placed with the placeholders that its names have later on. A registry never gives a
name a second one. -/
theorem WellFormed.map_placePath (wellFormed : s.WellFormed)
    (grows : Grows ((placePath path).run r).2 s) :
    ((placePath path).run r).1.map (Step.map some) = path.map (Step.map s.placeholder?) := by
  obtain ⟨entries, draft, out, placed⟩ := exists_entries_placePath path r
  subst draft
  rw [out, List.map_map, List.map_map, Step.map_comp_map, Step.map_comp_map]
  apply map_congr_pathNames
  intro entry mem
  have registered := grows.names_prefix.subset (placed.mem_names entry mem)
  exact (wellFormed.placeholder?_eq_some.2 registered).symm

/-- A path gets the same text again, at any later point of a run. -/
theorem WellFormed.escaped_eq (wellFormed : s.WellFormed)
    (grows : Grows ((placePath path).run r).2 s) : s.escaped path = r.escaped path := by
  obtain ⟨_, -, -, placed⟩ := exists_entries_placePath path s
  -- both times its placeholders are those that its names have in the end
  have later := wellFormed.of_grows placed.grows
  have again := later.map_placePath (.refl ((placePath path).run s).2)
  have earlier := later.map_placePath (grows.trans placed.grows)
  have injective : Function.Injective (Step.map (some : NamePlaceholder → _)) := by
    intro step step' same
    cases step <;> cases step' <;> cases same <;> rfl
  have placedAlike := List.map_injective_iff.2 injective (again.trans earlier.symm)
  exact congrArg PlacedPath.text placedAlike

/-- In a run of steps, two paths that are placed at any two points of it have the same text if and
only if they are the same path. Whatever steps follow, the text of a path is read as the path. The
steps before, between and behind are any, so that this holds of each request that paths share with
conditions and updates. -/
theorem escaped_identifies (before between rest : List RegistryStep) (p q : Path) :
    ((after before).escaped p = (after (before ++ .path p :: between)).escaped q ↔ p = q) ∧
      readEscaped? (after (before ++ .path p :: rest)).nameDict ((after before).escaped p) =
        some p := by
  have read (steps rest : List RegistryStep) (path : Path) :
      readEscaped? (after (steps ++ .path path :: rest)).nameDict ((after steps).escaped path) =
        some path :=
    (wellFormed_after _).readEscaped?_escaped (grows_path steps rest path)
  refine ⟨⟨fun same => ?_, ?_⟩, read before rest p⟩
  · -- both texts can be read in the end
    have first := read before (between ++ [.path q]) p
    have second := read (before ++ .path p :: between) [] q
    rw [List.append_assoc, List.cons_append, ← same, first] at second
    exact Option.some.inj second
  · rintro rfl
    exact ((wellFormed_after _).escaped_eq (grows_path before between p)).symm

/-- Names that hold what separates steps, or look like placeholders, and a number that begins with
another one. -/
example :
    (after [.value .null]).escaped [.name "#attr1[0]", .index 10, .name "a.b", .name "#attr1[0]"] =
      "#attr1[10].#attr2.#attr1" :=
  rfl

end Registry

end DocumentTable
