import DocumentTable.Proofs.Leaves
import DocumentTable.Proofs.Meaning
import DocumentTable.Proofs.UpdateGrammar

/-!
# Reading updates

The text of an update is read as one section of assignments and one of removals, in no other way,
and what the references in it stand for are the leaves of the tree that was compiled.

## Main definitions

* `Change.Fits`: a change whose paths start with names
* `UpdateClauses.sections`: the sections that clauses are written in
* `UpdateSection.resolve`: a section with names and values in the place of what stands for them
* `UpdateTree.sections`: the sections of the leaves of a tree

## Main results

* `UpdateClauses.updateRead`: the text of clauses is read as their sections
* `Change.exists_read`: what is read of changes stands for the changes
* `UpdateTree.reading`: compiling a tree loses no leaf, adds none and keeps their order
-/

namespace DocumentTable

open Registry

variable {ν ν' β β' ε δ : Type}

/-! ### Changes that can be read -/

/-- The paths of an operand start with names. -/
def Operand.Fits : Operand ν β → Prop
  | path p => startsWithName p = true
  | fallback p _ => startsWithName p = true
  | value _ => True

/-- Whether an operand can be read does not depend on what its names and values are. -/
@[simp] theorem Operand.fits_map (f : ν → ν') (g : β → β') (o : Operand ν β) :
    (o.map f g).Fits ↔ o.Fits := by
  cases o <;> simp [map, Fits]

/-- The paths of an assigned value start with names. -/
def AssignedValue.Fits : AssignedValue ν β → Prop
  | operand o => o.Fits
  | arithmetic left _ right => left.Fits ∧ right.Fits

@[simp] theorem AssignedValue.fits_map (f : ν → ν') (g : β → β') (v : AssignedValue ν β) :
    (v.map f g).Fits ↔ v.Fits := by
  cases v <;> simp [map, Fits]

/-- The paths of a change start with names. -/
def Change.Fits : Change ν β → Prop
  | set a => startsWithName a.target = true ∧ a.value.Fits
  | remove target => startsWithName target = true

@[simp] theorem Change.fits_map (f : ν → ν') (g : β → β') (c : Change ν β) :
    (c.map f g).Fits ↔ c.Fits := by
  cases c <;> simp [map, Fits, Assignment.map]

/-! ### Sections -/

/-- A section over other names and values. -/
def UpdateSection.map (f : ν → ν') (g : β → β') : UpdateSection ν β → UpdateSection ν' β'
  | set assignments => set (assignments.map (Assignment.map f g))
  | remove targets => remove (targets.map (List.map (Step.map f)))

namespace UpdateClauses

/-- The sections of an update: its assignments and then its removals, neither when there are
none. -/
def sections (u : UpdateClauses ν β) : List (UpdateSection ν β) :=
  (if u.sets.isEmpty then [] else [.set u.sets]) ++
    (if u.removes.isEmpty then [] else [.remove u.removes])

/-- The clauses over other names and values. -/
def map (f : ν → ν') (g : β → β') (u : UpdateClauses ν β) : UpdateClauses ν' β' :=
  ⟨u.sets.map (Assignment.map f g), u.removes.map (List.map (Step.map f))⟩

/-- The sections of an update over other names and values are its sections over them. -/
theorem sections_map (f : ν → ν') (g : β → β') (u : UpdateClauses ν β) :
    (u.map f g).sections = u.sections.map (UpdateSection.map f g) := by
  obtain ⟨sets, removes⟩ := u
  cases sets <;> cases removes <;> rfl

/-- Changes may be sorted into clauses before or after their names and values are exchanged. -/
theorem ofChanges_map (f : ν → ν') (g : β → β') (changes : List (Change ν β)) :
    ofChanges (changes.map (Change.map f g)) = (ofChanges changes).map f g := by
  simp only [ofChanges, map, List.filterMap_map, List.map_filterMap, UpdateClauses.mk.injEq]
  constructor
  · congr 1
    funext change
    cases change <;> rfl
  · congr 1
    funext change
    cases change <;> rfl

end UpdateClauses

/-- The assignments among the clauses are the assignments among the changes. -/
theorem UpdateClauses.mem_sets_ofChanges {changes : List (Change ν β)} {a : Assignment ν β} :
    a ∈ (ofChanges changes).sets ↔ .set a ∈ changes := by
  rw [ofChanges, List.mem_filterMap]
  constructor
  · rintro ⟨change, mem, same⟩
    cases change <;> cases same
    exact mem
  · exact fun mem => ⟨_, mem, rfl⟩

theorem UpdateClauses.mem_removes_ofChanges {changes : List (Change ν β)} {p : List (Step ν)} :
    p ∈ (ofChanges changes).removes ↔ .remove p ∈ changes := by
  rw [ofChanges, List.mem_filterMap]
  constructor
  · rintro ⟨change, mem, same⟩
    cases change <;> cases same
    exact mem
  · exact fun mem => ⟨_, mem, rfl⟩

/-! ### Reading texts -/

/-- An operand is read as it was written, when its path starts with a name. -/
theorem Operand.operandRead {o : Operand NamePlaceholder ValuePlaceholder} (h : o.Fits) :
    OperandRead o.tokens (o.map NamePlaceholder.written ValuePlaceholder.text) := by
  cases o with
  | path p => exact .path (pathRead h)
  | fallback p v =>
      have read := OperandRead.fallback v.text (pathRead h)
      rw [tokens, List.append_assoc]
      exact read
  | value v => exact .value v.text

theorem ArithmeticOp.tokens_text (op : ArithmeticOp) : tokens op.text = [.mark op.sign] := by
  cases op <;> decide

/-- An assigned value is read as it was written, when the paths in it start with names. -/
theorem AssignedValue.assignedRead {v : AssignedValue NamePlaceholder ValuePlaceholder}
    (h : v.Fits) :
    AssignedRead v.tokens (v.map NamePlaceholder.written ValuePlaceholder.text) := by
  cases v with
  | operand o => exact .operand (Operand.operandRead h)
  | arithmetic left op right =>
      have read := AssignedRead.arithmetic op (Operand.operandRead h.1) (Operand.operandRead h.2)
      rw [tokens, op.tokens_text, List.append_assoc]
      exact read

/-- An assignment is read as it was written, when its target and the paths in it start with names.
-/
theorem Assignment.assignmentRead {a : Assignment NamePlaceholder ValuePlaceholder}
    (h : (Change.set a).Fits) :
    AssignmentRead a.tokens (a.map NamePlaceholder.written ValuePlaceholder.text) := by
  have read := AssignmentRead.mk (pathRead h.1) (AssignedValue.assignedRead h.2)
  rw [tokens, List.append_assoc]
  exact read

/-- Parts that are read one by one are read with commas between them. There is at least one part, as
in the text of a section. -/
theorem partsRead {α γ : Type} {Read : List Token → γ → Prop} {tokensOf : α → List Token}
    {written : α → γ} (first : α) (rest : List α)
    (h : ∀ a ∈ first :: rest, Read (tokensOf a) (written a)) :
    PartsRead Read (tokensOf first ++ rest.flatMap fun a => .mark ',' :: tokensOf a)
      ((first :: rest).map written) := by
  induction rest generalizing first with
  | nil =>
      rw [List.flatMap_nil, List.append_nil]
      exact .single (h first List.mem_cons_self)
  | cons second rest ih =>
      rw [List.forall_mem_cons] at h
      exact .cons h.1 (ih second h.2)

namespace UpdateClauses

/-- The text of changes is read as their sections: the assignments, if there are any, and the
removals, if there are any. -/
theorem updateRead {changes : List (Change NamePlaceholder ValuePlaceholder)}
    (h : ∀ change ∈ changes, change.Fits) :
    UpdateRead (ofChanges changes).tokens ((ofChanges changes).sections.map
      (UpdateSection.map NamePlaceholder.written ValuePlaceholder.text)) := by
  have sets : ∀ a ∈ (ofChanges changes).sets, (Change.set a).Fits :=
    fun a ha => h _ (mem_sets_ofChanges.1 ha)
  have removes : ∀ p ∈ (ofChanges changes).removes, startsWithName p = true :=
    fun p hp => h _ (mem_removes_ofChanges.1 hp)
  generalize ofChanges changes = u at sets removes
  obtain ⟨as, ps⟩ := u
  have removals : UpdateRead (sectionTokens .remove (ps.map (stepsTokens true)))
      ((sections ⟨[], ps⟩).map
        (UpdateSection.map NamePlaceholder.written ValuePlaceholder.text)) := by
    cases ps with
    | nil => exact .nil
    | cons p ps =>
        have parts := partsRead p ps fun q hq => pathRead (removes q hq)
        have read := UpdateRead.cons (.remove parts) .nil
        rw [List.append_nil] at read
        simpa [sectionTokens, List.flatMap_map, sections, UpdateSection.map,
          PlacedPath.written] using read
  cases as with
  | nil => exact removals
  | cons a as =>
      have parts := partsRead a as fun b hb => Assignment.assignmentRead (sets b hb)
      have read := UpdateRead.cons (.set parts) removals
      simpa [tokens, sectionTokens, List.flatMap_map, sections, UpdateSection.map] using read

end UpdateClauses

/-! ### What sections stand for -/

section Resolve

variable (names : ν → Option ν') (values : β → Option β')

/-- The operand with what stands behind its names and its value. -/
def Operand.resolve : Operand ν β → Option (Operand ν' β')
  | path p => do return .path (← resolvePath names p)
  | fallback p v => do
    let p ← resolvePath names p
    return .fallback p (← values v)
  | value v => do return .value (← values v)

/-- The assigned value with what stands behind its names and its values. -/
def AssignedValue.resolve : AssignedValue ν β → Option (AssignedValue ν' β')
  | operand o => do return .operand (← o.resolve names values)
  | arithmetic left op right => do
    let left ← left.resolve names values
    return .arithmetic left op (← right.resolve names values)

/-- The assignment with what stands behind its names and its values. -/
def Assignment.resolve (a : Assignment ν β) : Option (Assignment ν' β') := do
  let target ← resolvePath names a.target
  return ⟨target, ← a.value.resolve names values⟩

/-- The section with what stands behind its names and its values. -/
def UpdateSection.resolve : UpdateSection ν β → Option (UpdateSection ν' β')
  | set assignments => do return .set (← assignments.mapM (Assignment.resolve names values))
  | remove targets => do return .remove (← targets.mapM (resolvePath names))

end Resolve

section Entries

variable {names : ν → Option ν'} {values : β → Option β'} {f : ε → ν} {g : ε → ν'} {f' : δ → β}
  {g' : δ → β'}

/-- What is found for each member of a list is found for the list, all of it or nothing. -/
theorem mapM_map_eq_some {α γ ζ : Type} {find : α → Option γ} {k : ζ → α} {k' : ζ → γ}
    {l : List ζ} (h : ∀ x ∈ l, find (k x) = some (k' x)) :
    (l.map k).mapM find = some (l.map k') := by
  induction l with
  | nil => rfl
  | cons x rest ih =>
      rw [List.forall_mem_cons] at h
      rw [List.map_cons, List.mapM_cons, h.1, ih h.2]
      rfl

/-- An operand is resolved by what is found for its names and values. Entries have both sides, the
placeholder that is written and what it stands for. -/
theorem Operand.resolve_map {o : Operand ε δ} (h : ∀ e ∈ o.names, names (f e) = some (g e))
    (h' : ∀ v ∈ o.literals, values (f' v) = some (g' v)) :
    (o.map f f').resolve names values = some (o.map g g') := by
  cases o with
  | path p => simp [map, resolve, resolvePath_map h]
  | fallback p v => simp [map, resolve, resolvePath_map h, h' v (List.mem_singleton_self v)]
  | value v => simp [map, resolve, h' v (List.mem_singleton_self v)]

/-- An assigned value is resolved by what is found for its names and values. -/
theorem AssignedValue.resolve_map {v : AssignedValue ε δ}
    (h : ∀ e ∈ v.names, names (f e) = some (g e))
    (h' : ∀ l ∈ v.literals, values (f' l) = some (g' l)) :
    (v.map f f').resolve names values = some (v.map g g') := by
  cases v with
  | operand o =>
      have operand : Operand.resolve names values _ = _ := Operand.resolve_map h h'
      simp [map, resolve, operand]
  | arithmetic left op right =>
      rw [AssignedValue.names, List.forall_mem_append] at h
      rw [literals, List.forall_mem_append] at h'
      simp [map, resolve, Operand.resolve_map h.1 h'.1, Operand.resolve_map h.2 h'.2]

/-- An assignment is resolved by what is found for its names and values, those of its target
included. -/
theorem Assignment.resolve_map {a : Assignment ε δ}
    (h : ∀ e ∈ (Change.set a).names, names (f e) = some (g e))
    (h' : ∀ v ∈ (Change.set a : Change ε δ).literals, values (f' v) = some (g' v)) :
    (a.map f f').resolve names values = some (a.map g g') := by
  rw [Change.names, List.forall_mem_append] at h
  have value : AssignedValue.resolve names values _ = _ := AssignedValue.resolve_map h.2 h'
  simp [map, resolve, resolvePath_map h.1, value]

/-- The sections of changes over one side of entries, resolved, are those of the changes over their
other side. -/
theorem UpdateClauses.resolve_sections {changes : List (Change ε δ)}
    (h : ∀ c ∈ changes, ∀ e ∈ c.names, names (f e) = some (g e))
    (h' : ∀ c ∈ changes, ∀ v ∈ c.literals, values (f' v) = some (g' v)) :
    (ofChanges (changes.map (Change.map f f'))).sections.mapM
        (UpdateSection.resolve names values) =
      some (ofChanges (changes.map (Change.map g g'))).sections := by
  rw [ofChanges_map, ofChanges_map, sections_map, sections_map]
  apply mapM_map_eq_some
  intro s hs
  rcases List.mem_append.1 hs with hs | hs
  · split at hs
    · cases hs
    · obtain rfl := List.mem_singleton.1 hs
      have resolved : ((ofChanges changes).sets.map (Assignment.map f f')).mapM
          (Assignment.resolve names values) = _ :=
        mapM_map_eq_some fun a ha =>
          Assignment.resolve_map (h _ (mem_sets_ofChanges.1 ha)) (h' _ (mem_sets_ofChanges.1 ha))
      simp [UpdateSection.map, UpdateSection.resolve, resolved]
  · split at hs
    · cases hs
    · obtain rfl := List.mem_singleton.1 hs
      have resolved : ((ofChanges changes).removes.map (List.map (Step.map f))).mapM
          (resolvePath names) = _ :=
        mapM_map_eq_some fun p hp => resolvePath_map (h _ (mem_removes_ofChanges.1 hp))
      simp [UpdateSection.map, UpdateSection.resolve, resolved]

end Entries

/-- The text of changes, placed with any registry that a run leaves, is read in one way, and what
the references in it stand for are the sections of the changes. They must be changes that can be
read at all. -/
theorem Change.exists_read {changes : List (Change String Json)}
    (fits : ∀ change ∈ changes, change.Fits) (steps : List RegistryStep) {clauses : PlacedUpdate}
    {s : Registry} (run : (UpdateClauses.place changes).run (after steps) = (clauses, s)) :
    ∃ read, UpdateRead (tokens clauses.text) read ∧
      (∀ other, UpdateRead (tokens clauses.text) other → other = read) ∧
      read.mapM (UpdateSection.resolve s.nameOf? s.valueDict.get?) =
        some (UpdateClauses.ofChanges changes).sections := by
  -- the changes that are written have one side of the entries, those that are meant the other
  obtain ⟨entries, rfl, out, placed⟩ := exists_entries_placeAll changes (after steps)
  have written : clauses = .ofChanges (entries.map (map Prod.fst Prod.fst)) :=
    (congrArg Prod.fst run).symm.trans (congrArg UpdateClauses.ofChanges out)
  have registry : ((placeAll (entries.map (map Prod.snd Prod.snd))).run (after steps)).2 = s :=
    congrArg Prod.snd run
  rw [registry] at placed
  have fits : ∀ change ∈ entries.map (map Prod.fst Prod.fst), change.Fits := by
    rw [List.forall_mem_map] at fits ⊢
    intro entry mem
    have fits := fits entry mem
    rwa [fits_map] at fits ⊢
  have read := UpdateClauses.updateRead fits
  rw [← UpdateClauses.tokens_text, ← written] at read
  refine ⟨_, read, fun other isRead => isRead.unique read, ?_⟩
  have wellFormed := (wellFormed_after steps).of_grows placed.grows
  rw [written, ← UpdateClauses.sections_map, ← UpdateClauses.ofChanges_map, List.map_map]
  simp only [Function.comp_def, map_map]
  apply UpdateClauses.resolve_sections
  · intro change hchange entry hentry
    have mem := placed.mem_names entry (List.mem_flatMap.2 ⟨change, hchange, hentry⟩)
    exact wellFormed.get?_nameDict.2 ⟨entry.1, rfl, mem⟩
  · intro change hchange entry hentry
    refine wellFormed.get?_valueDict.2 ⟨entry.1, rfl, ?_⟩
    rw [placed.values_eq]
    exact List.mem_append_right _ (List.mem_flatMap.2 ⟨change, hchange, hentry⟩)

/-! ### Trees -/

/-- The path that a left operand reads from. -/
def LeftOperand.source : LeftOperand → Path
  | path p => p
  | fallback f => f.path

/-- The path that a right operand reads from, if it is one. -/
def RightOperand.source? : RightOperand → Option Path
  | value _ => none
  | path p => some p

/-- The paths that a leaf reads from. -/
def UpdateLeaf.sources (leaf : UpdateLeaf) : List Path :=
  match leaf.action with
  | .fallback f => [f.path]
  | .arithmetic a => a.left.source :: a.right.source?.toList
  | _ => []

/-- The change of a leaf can be read when the paths that it reads from can be. Its own path starts
with a name anyway. -/
theorem UpdateLeaf.fits_of_change? {leaf : UpdateLeaf} (names : leaf.names ≠ [])
    (sources : ∀ path ∈ leaf.sources, startsWithName path = true) {change : Change String Json}
    (h : leaf.change? [] = some change) : change.Fits := by
  obtain ⟨names', action⟩ := leaf
  obtain ⟨name, rest, rfl⟩ := List.exists_cons_of_ne_nil names
  cases action with
  | remove =>
      cases h
      rfl
  | assign value =>
      cases h
      exact ⟨rfl, trivial⟩
  | nested entries => cases h
  | fallback f =>
      cases h
      exact ⟨rfl, sources f.path (List.mem_singleton_self _)⟩
  | arithmetic a =>
      obtain ⟨left, op, right⟩ := a
      cases h
      rw [UpdateLeaf.sources, List.forall_mem_cons] at sources
      refine ⟨rfl, ?_, ?_⟩
      · cases left <;> exact sources.1
      · cases right with
        | value v => trivial
        | path p => exact sources.2 p (List.mem_singleton_self _)

namespace UpdateTree

/-- The sections of a tree: one of its assignments, one of its removals, each in the order of the
leaves, and neither when there are none. -/
def sections (tree : UpdateTree) : List (UpdateSection String Json) :=
  UpdateClauses.sections
    ⟨tree.leaves.filterMap UpdateLeaf.assignment?, tree.leaves.filterMap UpdateLeaf.removal?⟩

/-- The sections of a tree are those of its changes. -/
theorem sections_eq (tree : UpdateTree) :
    tree.sections = (UpdateClauses.ofChanges (changes [] tree)).sections := by
  rw [sections, UpdateClauses.ofChanges, changes_eq_leaves, List.filterMap_filterMap,
    List.filterMap_filterMap]
  congr 2
  · congr 1
    funext leaf
    obtain ⟨names, action⟩ := leaf
    cases action <;> rfl
  · congr 1
    funext leaf
    obtain ⟨names, action⟩ := leaf
    cases action <;> rfl

/-- A tree with leaves has a section, since each leaf makes an assignment or a removal. -/
theorem sections_ne_nil {tree : UpdateTree} (h : tree.leaves ≠ []) : tree.sections ≠ [] := by
  have nonempty : changes [] tree ≠ [] := mt changes_eq_nil_iff.1 h
  obtain ⟨change, rest, eq⟩ := List.exists_cons_of_ne_nil nonempty
  rw [sections_eq, eq]
  cases change with
  | set a => exact List.cons_ne_nil _ _
  | remove p => exact List.append_ne_nil_of_right_ne_nil _ (List.cons_ne_nil _ _)

/-- Compiling a tree without leaves fails and leaves the registry as it was, for no placeholder is
given out before that is known. -/
theorem run_compile_of_leaves_eq_nil {tree : UpdateTree} (h : tree.leaves = []) (r : Registry) :
    tree.compile.run.run r = (.error .emptyUpdate, r) := by
  rw [compile, walk_eq, changes_eq_nil_iff.2 h]
  rfl

/-- Compiling a tree with leaves gives its changes their placeholders, and then it cannot fail. -/
theorem run_compile_of_leaves_ne_nil {tree : UpdateTree} (h : tree.leaves ≠ []) (r : Registry) :
    tree.compile.run.run r = (.ok ((UpdateClauses.place (changes [] tree)).run r).1,
      ((UpdateClauses.place (changes [] tree)).run r).2) := by
  have nonempty : ¬(changes [] tree).isEmpty = true := by
    simpa using mt changes_eq_nil_iff.1 h
  have follows := tree.follows_compile
  rw [draft, if_neg nonempty] at follows
  exact follows r

/-- The changes of a tree can be read when the paths that its leaves read from start with names. The
paths that are changed do so anyway. -/
theorem fits_changes {tree : UpdateTree}
    (sources : ∀ leaf ∈ tree.leaves, ∀ path ∈ leaf.sources, startsWithName path = true) :
    ∀ change ∈ changes [] tree, change.Fits := by
  intro change mem
  rw [changes_eq_leaves, List.mem_filterMap] at mem
  obtain ⟨leaf, isLeaf, isChange⟩ := mem
  have names := names_ne_nil_of_mem_leaves isLeaf
  exact UpdateLeaf.fits_of_change? names (sources leaf isLeaf) isChange

/-- Compiling a tree loses no leaf, adds none and keeps their order, with any registry that a run
can leave. Without a leaf it fails and leaves the registry as it was. Otherwise the text is read as
an update in one way, and when the references in it are replaced by what they stand for, its
sections are those of the leaves of the tree. The paths that a leaf reads from have to start with a
name, as all paths do that are made of a text; an index in front has no place in the grammar. -/
theorem reading (steps : List RegistryStep) {tree : UpdateTree}
    (sources : ∀ leaf ∈ tree.leaves, ∀ path ∈ leaf.sources, startsWithName path = true) :
    (tree.leaves = [] →
      tree.compile.run.run (after steps) = (.error .emptyUpdate, after steps)) ∧
    (tree.leaves ≠ [] → ∃ clauses s read,
      tree.compile.run.run (after steps) = (.ok clauses, s) ∧
        UpdateRead (tokens clauses.text) read ∧
        (∀ other, UpdateRead (tokens clauses.text) other → other = read) ∧
        read.mapM (UpdateSection.resolve s.nameOf? s.valueDict.get?) = some tree.sections ∧
        tree.sections ≠ []) := by
  refine ⟨fun h => run_compile_of_leaves_eq_nil h _, fun h => ?_⟩
  obtain ⟨read, isRead, unique, resolved⟩ := Change.exists_read (fits_changes sources) steps rfl
  rw [← sections_eq] at resolved
  exact ⟨_, _, read, run_compile_of_leaves_ne_nil h _, isRead, unique, resolved, sections_ne_nil h⟩

/-- A sum with a fallback, a removal inside an attribute and an attribute with nothing inside, after
one of the names was given a placeholder. -/
theorem reading_nested : ∃ (clauses : PlacedUpdate) (s : Registry)
    (read : List (UpdateSection WrittenName String)),
    (compile [("a", .remove), ("b", .nested [("c", .arithmetic
        ⟨.fallback ⟨[.name "c", .index 2], .null⟩, .minus, .path [.name "a"]⟩), ("d", .nested [])]),
      ("c", .assign (.string "x"))]).run.run (after [.path (.ofName "c")]) = (.ok clauses, s) ∧
      clauses.text = "SET #attr2.#attr0 = if_not_exists(#attr0[2], :val3) - #attr1, " ++
        "#attr0 = :val4 REMOVE #attr1" ∧
      UpdateRead (tokens clauses.text) read ∧
      read.mapM (UpdateSection.resolve s.nameOf? s.valueDict.get?) =
        some [.set [⟨[.name "b", .name "c"],
            .arithmetic (.fallback [.name "c", .index 2] .null) .minus (.path [.name "a"])⟩,
          ⟨[.name "c"], .operand (.value (.string "x"))⟩], .remove [[.name "a"]]] := by
  obtain ⟨-, reads⟩ := @reading [.path (.ofName "c")] [("a", .remove),
    ("b", .nested [("c", .arithmetic
      ⟨.fallback ⟨[.name "c", .index 2], .null⟩, .minus, .path [.name "a"]⟩), ("d", .nested [])]),
    ("c", .assign (.string "x"))] (by decide)
  obtain ⟨clauses, s, read, run, isRead, -, resolved, -⟩ := reads (List.cons_ne_nil _ _)
  refine ⟨clauses, s, read, run, ?_, isRead, resolved⟩
  have text := congrArg (fun outcome => outcome.1.map UpdateClauses.text) run
  refine Except.ok.inj (text.symm.trans ?_)
  decide

end UpdateTree

end DocumentTable
