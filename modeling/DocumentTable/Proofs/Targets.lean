import DocumentTable.Proofs.UpdateReading

/-!
# Targets of updates

The service refuses an update that reaches the same place of an item twice. An update tree has each
name once at every level, so the paths of its leaves lie apart, and so do the texts that they are
written as.

## Main definitions

* `UpdateTree.Built`: the trees that can be made
* `UpdateTree.Distinct`: each name once at every level
* `Apart`: neither of two paths leads through the other
* `UpdateClauses.targets`: the attributes that an update changes

## Main results

* `UpdateTree.Built.distinct`: every tree that can be made has each name once at every level
* `UpdateTree.Distinct.pairwise_leaves`: then the paths of its leaves lie apart
* `UpdateTree.Built.targets_apart`: the targets of an update lie apart, in the tree and in its text
-/

namespace DocumentTable

open Registry

/-! ### Trees that can be made -/

mutual

/-- Whether the members of each object inside a value have different names. -/
def Json.DistinctNames : Json → Prop
  | .array items => Json.DistinctNamesOfItems items
  | .object members => (Dict.keys members).Nodup ∧ Json.DistinctNamesOfMembers members
  | _ => True

/-- Whether the members of each object inside values have different names. -/
def Json.DistinctNamesOfItems : List Json → Prop
  | [] => True
  | item :: rest => item.DistinctNames ∧ Json.DistinctNamesOfItems rest

/-- Whether the members of each object inside members have different names. -/
def Json.DistinctNamesOfMembers : List (String × Json) → Prop
  | [] => True
  | (_, value) :: rest => value.DistinctNames ∧ Json.DistinctNamesOfMembers rest

end

/-- Names are distinct in all members when they are in what each of them holds. -/
theorem Json.distinctNamesOfMembers_iff {members : List (String × Json)} :
    DistinctNamesOfMembers members ↔ ∀ member ∈ members, member.2.DistinctNames := by
  induction members with
  | nil => simp [DistinctNamesOfMembers]
  | cons member rest ih => simp [DistinctNamesOfMembers, ih]

namespace UpdateTree

/-- The trees that can be made, with trees inside them made in the same way. -/
inductive Built : UpdateTree → Prop
  | new : Built []
  | set {tree : UpdateTree} {action : UpdateAction} (name : String) : Built tree →
      (∀ inner, action = .nested inner → Built inner) → Built (tree.set name action)
  | remove {tree : UpdateTree} (name : String) : Built tree → Built (tree.remove name)
  | ofList {entries : List (String × UpdateAction)} :
      (∀ name inner, (name, .nested inner) ∈ entries → Built inner) → Built (ofList entries)
  | ofDocument {document : Document} : (Json.object document).DistinctNames →
      Built (ofDocument document)
  | ofValues {members : List (String × Json)} : (∀ member ∈ members, member.2.DistinctNames) →
      Built (ofValues members)

mutual

/-- Whether a tree has each name once, and so have the trees inside it. -/
def Distinct : UpdateTree → Prop
  | [] => True
  | (name, action) :: rest =>
    name ∉ rest.map Prod.fst ∧ DistinctAction action ∧ Distinct rest

/-- Whether the tree of an action has each name once, if it has one. -/
def DistinctAction : UpdateAction → Prop
  | .nested entries => Distinct entries
  | _ => True

end

/-- Only an action with entries inside has names that need to be distinct. -/
theorem distinctAction_of_forall {action : UpdateAction}
    (h : ∀ inner, action = .nested inner → Distinct inner) : DistinctAction action := by
  cases action with
  | nested inner => exact h inner rfl
  | _ => trivial

/-! ### Every tree that can be made has each name once -/

/-- Setting a name adds it, or finds it among those that are there. -/
theorem mem_names_set {n name : String} {action : UpdateAction} {tree : UpdateTree} :
    n ∈ (tree.set name action).map Prod.fst ↔ n = name ∨ n ∈ tree.map Prod.fst := by
  induction tree with
  | nil => simp [set]
  | cons entry rest ih =>
      obtain ⟨m, a⟩ := entry
      rw [set]
      split
      · next same => simp [same]
      · rw [List.map_cons, List.mem_cons, ih, List.map_cons, List.mem_cons]
        tauto

/-- Setting a name does not repeat it. What stands under it is new, so it needs distinct names of
its own. -/
theorem Distinct.set {tree : UpdateTree} (h : tree.Distinct) (name : String)
    {action : UpdateAction} (distinct : DistinctAction action) :
    (tree.set name action).Distinct := by
  induction tree with
  | nil => exact ⟨List.not_mem_nil, distinct, trivial⟩
  | cons entry rest ih =>
      obtain ⟨m, a⟩ := entry
      obtain ⟨fresh, inner, others⟩ := h
      rw [UpdateTree.set]
      split
      · exact ⟨fresh, distinct, others⟩
      · next other =>
          refine ⟨?_, inner, ih others⟩
          rw [mem_names_set]
          rintro (same | mem)
          · exact other same
          · exact fresh mem

/-- A tree that is made of entries has each name once, however often the entries have it. -/
theorem distinct_ofList {entries : List (String × UpdateAction)}
    (h : ∀ entry ∈ entries, DistinctAction entry.2) : (ofList entries).Distinct := by
  rw [ofList]
  -- the tree so far may be any tree with the property
  suffices ∀ tree : UpdateTree, tree.Distinct →
      Distinct (entries.foldl (fun tree entry => set entry.1 entry.2 tree) tree) from
    this [] trivial
  induction entries with
  | nil => exact fun tree distinct => distinct
  | cons entry rest ih =>
      rw [List.forall_mem_cons] at h
      intro tree distinct
      exact ih h.2 _ (distinct.set entry.1 h.1)

theorem names_ofDocument (document : Document) :
    (ofDocument document).map Prod.fst = Dict.keys document := by
  induction document with
  | nil => rfl
  | cons member rest ih =>
      obtain ⟨name, value⟩ := member
      rw [ofDocument, List.map_cons, ih]
      rfl

mutual

/-- A tree that is read from a document has each name once, if all objects in the document do. -/
theorem distinct_ofDocument {document : Document} (names : (Dict.keys document).Nodup)
    (h : Json.DistinctNamesOfMembers document) : (ofDocument document).Distinct := by
  cases document with
  | nil => trivial
  | cons member rest =>
      obtain ⟨name, value⟩ := member
      obtain ⟨fresh, others⟩ := List.nodup_cons.1 names
      refine ⟨?_, distinctAction_ofValue h.1, distinct_ofDocument others h.2⟩
      rw [names_ofDocument]
      exact fresh

/-- An action that is read from a value has each name once, by induction on the value. -/
theorem distinctAction_ofValue {value : Json} (h : value.DistinctNames) :
    DistinctAction (ofValue value) := by
  cases value with
  | object members => exact distinct_ofDocument h.1 h.2
  | _ => trivial

end

/-- Every tree that can be made has each name once at every level. The induction is on how the tree
was made, so that no other way to make one may be left out there. -/
theorem Built.distinct {tree : UpdateTree} (h : tree.Built) : tree.Distinct := by
  induction h with
  | new => trivial
  | set name _ _ ih inner => exact ih.set name (distinctAction_of_forall inner)
  | remove name _ ih => exact ih.set name trivial
  | ofList _ inner =>
      refine distinct_ofList fun entry mem => distinctAction_of_forall ?_
      rintro tree same
      exact inner entry.1 tree (same ▸ mem)
  | ofDocument names => exact distinct_ofDocument names.1 names.2
  | ofValues names =>
      refine distinct_ofDocument (Dict.sorted_ofList _).nodup_keys ?_
      rw [Json.distinctNamesOfMembers_iff]
      exact fun member mem => names member (Dict.mem_of_mem_ofList mem)

end UpdateTree

/-! ### Paths that lie apart -/

/-- Neither of two paths leads through the other, so they are not the same either. -/
def Apart {α : Type} (p q : List α) : Prop :=
  ¬p <+: q ∧ ¬q <+: p

/-- Lying apart does not depend on which of two paths is named first. -/
theorem Apart.symm {α : Type} {p q : List α} (h : Apart p q) : Apart q p :=
  ⟨h.2, h.1⟩

/-- Below a common element paths lie apart when the rest of them does. -/
theorem apart_cons {α : Type} {a : α} {p q : List α} : Apart (a :: p) (a :: q) ↔ Apart p q := by
  simp [Apart, List.cons_prefix_cons]

/-- Paths that begin differently lie apart, whatever is behind the beginning. -/
theorem apart_of_ne {α : Type} {a b : α} (h : a ≠ b) (p q : List α) :
    Apart (a :: p) (b :: q) := by
  simp [Apart, List.cons_prefix_cons, h, h.symm]

theorem apart_map_some {α : Type} {p q : List α} : Apart (p.map some) (q.map some) ↔ Apart p q := by
  simp only [Apart, List.prefix_map_iff_of_injective fun _ _ => Option.some.inj]

/-- Paths lie apart when what is found for them does. The converse fails, as two elements may be
found as the same. -/
theorem Apart.of_map {α β : Type} {f : α → β} {p q : List α} (h : Apart (p.map f) (q.map f)) :
    Apart p q :=
  ⟨mt (List.IsPrefix.map f ·) h.1, mt (List.IsPrefix.map f ·) h.2⟩

namespace UpdateTree

/-- A leaf is below one of the names of its tree. Leaves of entries with other names lie apart for
this reason alone. -/
theorem exists_name_of_mem_leaves {tree : UpdateTree} {leaf : UpdateLeaf}
    (h : leaf ∈ leaves tree) :
    ∃ name ∈ tree.map Prod.fst, ∃ rest, leaf.names = name :: rest := by
  induction tree with
  | nil => cases h
  | cons entry rest ih =>
      obtain ⟨name, action⟩ := entry
      rw [leaves, List.mem_append, List.mem_map] at h
      rcases h with ⟨inner, _, rfl⟩ | h
      · exact ⟨name, List.mem_cons_self, inner.names, rfl⟩
      · obtain ⟨n, mem, below⟩ := ih h
        exact ⟨n, List.mem_cons_of_mem _ mem, below⟩

mutual

/-- The leaves of a tree that has each name once lie apart. The proof is by induction on the tree,
together with its actions. -/
theorem Distinct.pairwise_leaves {tree : UpdateTree} (h : tree.Distinct) :
    (leaves tree).Pairwise fun a b => Apart a.names b.names := by
  cases tree with
  | nil => exact .nil
  | cons entry rest =>
      obtain ⟨name, action⟩ := entry
      obtain ⟨fresh, inner, others⟩ := h
      refine List.pairwise_append.2 ⟨?_, others.pairwise_leaves, ?_⟩
      · rw [List.pairwise_map]
        exact (pairwise_leavesOfAction inner).imp apart_cons.2
      · -- one leaf is below the first name and the other one below another name
        intro leaf hleaf leaf' hleaf'
        obtain ⟨inner', -, rfl⟩ := List.mem_map.1 hleaf
        obtain ⟨name', mem, rest', below⟩ := exists_name_of_mem_leaves hleaf'
        rw [below]
        refine apart_of_ne ?_ _ _
        rintro rfl
        exact fresh mem

/-- The leaves of an action lie apart: there is one leaf at most, or they are those of a tree. -/
theorem pairwise_leavesOfAction {action : UpdateAction} (h : DistinctAction action) :
    (leavesOfAction action).Pairwise fun a b => Apart a.names b.names := by
  cases action with
  | nested entries => exact Distinct.pairwise_leaves h
  | _ => exact List.pairwise_singleton _ _

end

end UpdateTree

/-! ### Targets in texts -/

/-- The attribute that a change is about. -/
def Change.target {ν β : Type} : Change ν β → List (Step ν)
  | set a => a.target
  | remove target => target

/-- The target of a change over other names is its target over them. -/
theorem Change.target_map {ν ν' β β' : Type} (f : ν → ν') (g : β → β') (c : Change ν β) :
    (c.map f g).target = c.target.map (Step.map f) := by
  cases c <;> rfl

/-- The names on the target of a change are names of the change. -/
theorem Change.mem_names_of_mem_target {ν β : Type} {c : Change ν β} {n : ν}
    (h : n ∈ pathNames c.target) : n ∈ c.names := by
  cases c with
  | set a => exact List.mem_append_left _ h
  | remove target => exact h

namespace UpdateClauses

variable {ν β : Type}

/-- The attributes that an update changes, those of its assignments first. -/
def targets (u : UpdateClauses ν β) : List (List (Step ν)) :=
  u.sets.map Assignment.target ++ u.removes

/-- The targets of clauses are those of their changes, in another order. That they lie apart does
not depend on the order. -/
theorem targets_ofChanges (changes : List (Change ν β)) :
    (ofChanges changes).targets.Perm (changes.map Change.target) := by
  induction changes with
  | nil => exact .refl _
  | cons change rest ih =>
      cases change with
      | set a => exact ih.cons a.target
      | remove target => exact List.perm_middle.trans (ih.cons target)

end UpdateClauses

/-- The target of the change that a leaf makes is the path of the leaf. -/
theorem UpdateLeaf.target_of_change? {leaf : UpdateLeaf} {change : Change String Json}
    (h : leaf.change? [] = some change) : change.target = leaf.target := by
  obtain ⟨names, action⟩ := leaf
  cases action <;> cases h <;> rfl

/-- The targets of the changes of a tree are the paths of its leaves. -/
theorem UpdateTree.map_target_changes (tree : UpdateTree) :
    (changes [] tree).map Change.target = tree.leaves.map UpdateLeaf.target := by
  rw [changes_eq_leaves]
  have changed : ∀ leaf ∈ tree.leaves, (leaf.change? []).isSome :=
    fun leaf hleaf => isSome_change?_of_mem_leaves hleaf []
  generalize tree.leaves = leaves at changed ⊢
  induction leaves with
  | nil => rfl
  | cons leaf rest ih =>
      rw [List.forall_mem_cons] at changed
      obtain ⟨change, found⟩ := Option.isSome_iff_exists.1 changed.1
      rw [List.filterMap_cons_some found, List.map_cons, List.map_cons, ih changed.2,
        UpdateLeaf.target_of_change? found]

/-- The segments of the text of a path, which dots separate. -/
def PlacedPath.segments (path : PlacedPath) : List (List Char) :=
  splitAll ['.'] (PlacedPath.text path).toList

/-- A placeholder has no dot, so that a split at dots leaves it whole. -/
theorem NamePlaceholder.dot_not_mem_text (p : NamePlaceholder) : '.' ∉ p.text.toList := by
  rw [p.toList_text, List.mem_cons, List.mem_append]
  rintro (same | same | digit)
  · cases same
  · simp at same
  · have := List.all_eq_true.1 (all_isDigit_toDigits p.number) _ digit
    cases this

/-- A path of names is written with a dot in front of each of them. -/
theorem toList_stepsText_names (names : List NamePlaceholder) :
    (stepsText NamePlaceholder.text false (names.map .name)).toList =
      (names.map fun p => p.text.toList).flatMap ('.' :: ·) := by
  induction names with
  | nil => rfl
  | cons p rest ih =>
      rw [List.map_cons, stepsText, String.toList_append, ih, List.map_cons, List.flatMap_cons]
      simp [Step.text]

/-- The segments of a path of names are the texts of their placeholders, one for each name. -/
theorem PlacedPath.segments_names (first : NamePlaceholder) (rest : List NamePlaceholder) :
    segments ((first :: rest).map .name) = (first :: rest).map fun p => p.text.toList := by
  have text : (PlacedPath.text ((first :: rest).map .name)).toList =
      first.text.toList ++ (rest.map fun p => p.text.toList).flatMap ('.' :: ·) := by
    rw [← toList_stepsText_names, PlacedPath.text, List.map_cons, stepsText, String.toList_append]
    rfl
  rw [segments, text]
  refine splitAll_pieces (List.mem_singleton_self '.') first.dot_not_mem_text ?_
  rw [List.forall_mem_map]
  exact fun p _ => p.dot_not_mem_text

/-- A path of entries that stands for names is a path of names. Targets have no indexes, since the
leaves of a tree are reached by names. -/
theorem exists_names_of_map_snd {path : List (Step NameEntry)} {names : List String}
    (h : path.map (Step.map Prod.snd) = names.map .name) :
    ∃ entries : List NameEntry, path = entries.map .name ∧ entries.map Prod.snd = names := by
  induction path generalizing names with
  | nil =>
      rw [List.map_nil, eq_comm, List.map_eq_nil_iff] at h
      exact ⟨[], rfl, h.symm⟩
  | cons step rest ih =>
      cases names with
      | nil => cases h
      | cons name names =>
          obtain ⟨head, tail⟩ := List.cons.inj h
          obtain ⟨entries, rfl, rfl⟩ := ih tail
          cases step with
          | name entry => exact ⟨entry :: entries, rfl, congrArg (· :: _) (Step.name.inj head)⟩
          | index i => cases head

/-- What the segments of a target stand for are the names that lead to the leaf. The registry has to
hold all entries on the path, which it does once they have been placed. -/
theorem Registry.WellFormed.map_segments {r : Registry} (h : r.WellFormed)
    {path : List (Step NameEntry)} {names : List String}
    (stands : path.map (Step.map Prod.snd) = names.map .name) (nonempty : names ≠ [])
    (mem : ∀ entry ∈ pathNames path, entry ∈ r.names) :
    (PlacedPath.segments (path.map (Step.map Prod.fst))).map
        (fun segment => r.nameDict.get? (String.ofList segment)) = names.map some := by
  obtain ⟨entries, rfl, rfl⟩ := exists_names_of_map_snd stands
  have someEntry : entries ≠ [] := mt (congrArg (List.map Prod.snd)) nonempty
  obtain ⟨first, rest, rfl⟩ := List.exists_cons_of_ne_nil someEntry
  have placeholders : ((first :: rest).map Step.name).map (Step.map Prod.fst) =
      ((first :: rest).map Prod.fst).map (.name : NamePlaceholder → _) := by
    rw [List.map_map, List.map_map]
    rfl
  rw [placeholders, List.map_cons, PlacedPath.segments_names, ← List.map_cons, List.map_map,
    List.map_map, List.map_map]
  apply List.map_congr_left
  intro entry hentry
  have registered : entry ∈ r.names := by
    refine mem entry ?_
    rw [pathNames, List.filterMap_map]
    exact List.mem_filterMap.2 ⟨entry, hentry, rfl⟩
  rw [Function.comp_apply, Function.comp_apply, String.ofList_toList]
  exact h.get?_nameDict.2 ⟨entry.1, rfl, registered⟩

/-- The segments of targets lie apart when the names that lead to the leaves do. Otherwise one
target would begin with the segments of the other, and so would what they stand for. -/
theorem Registry.WellFormed.apart_segments {r : Registry} (h : r.WellFormed)
    {path path' : List (Step NameEntry)} {names names' : List String}
    (stands : path.map (Step.map Prod.snd) = names.map .name)
    (stands' : path'.map (Step.map Prod.snd) = names'.map .name)
    (nonempty : names ≠ []) (nonempty' : names' ≠ [])
    (mem : ∀ entry ∈ pathNames path, entry ∈ r.names)
    (mem' : ∀ entry ∈ pathNames path', entry ∈ r.names) (apart : Apart names names') :
    Apart (PlacedPath.segments (path.map (Step.map Prod.fst)))
      (PlacedPath.segments (path'.map (Step.map Prod.fst))) := by
  apply Apart.of_map (f := fun segment => r.nameDict.get? (String.ofList segment))
  rw [h.map_segments stands nonempty mem, h.map_segments stands' nonempty' mem']
  exact apart_map_some.2 apart

theorem pathNames_map_name {α : Type} (names : List α) : pathNames (names.map .name) = names := by
  rw [pathNames, List.filterMap_map]
  exact List.filterMap_some

namespace UpdateTree

/-- The targets of an update lie apart: the paths of the leaves of a tree, however it was made, and
the texts that they have in what the tree is compiled to, segment by segment. The registry may have
gone through any steps before. That the tree was made by the constructors is needed, since a tree
with a name twice would have two equal targets. -/
theorem Built.targets_apart {tree : UpdateTree} (built : tree.Built) :
    (tree.leaves.map UpdateLeaf.names).Pairwise Apart ∧
      ∀ (steps : List RegistryStep) (clauses : PlacedUpdate) (s : Registry),
        tree.compile.run.run (after steps) = (.ok clauses, s) →
          (clauses.targets.map PlacedPath.segments).Pairwise Apart := by
  have leavesApart := built.distinct.pairwise_leaves
  refine ⟨List.pairwise_map.2 leavesApart, fun steps clauses s run => ?_⟩
  have nonempty : tree.leaves ≠ [] := by
    intro none
    rw [run_compile_of_leaves_eq_nil none] at run
    cases run
  rw [run_compile_of_leaves_ne_nil nonempty] at run
  obtain ⟨entries, draft, out, placed⟩ :=
    Change.exists_entries_placeAll (changes [] tree) (after steps)
  cases run
  have wellFormed := (wellFormed_after steps).of_grows placed.grows
  have registered : ∀ entry ∈ entries, ∀ name ∈ pathNames entry.target,
      name ∈ ((Change.placeAll (changes [] tree)).run (after steps)).2.names := by
    intro entry hentry name hname
    exact placed.mem_names name
      (List.mem_flatMap.2 ⟨entry, hentry, Change.mem_names_of_mem_target hname⟩)
  -- the targets with the names on one side are those of the leaves
  have standFor : entries.map (fun entry => entry.target.map (Step.map Prod.snd)) =
      tree.leaves.map UpdateLeaf.target := by
    rw [← map_target_changes, ← draft, List.map_map]
    simp only [Function.comp_def, Change.target_map]
  have exists_names : ∀ entry ∈ entries, ∃ names : List String, names ≠ [] ∧
      entry.target.map (Step.map Prod.snd) = names.map .name := by
    intro entry hentry
    have mem := List.mem_map_of_mem (f := fun entry : Change NameEntry ValueEntry =>
      entry.target.map (Step.map Prod.snd)) hentry
    rw [standFor] at mem
    obtain ⟨leaf, hleaf, same⟩ := List.mem_map.1 mem
    exact ⟨leaf.names, names_ne_nil_of_mem_leaves hleaf, same.symm⟩
  have entriesApart : (entries.map fun entry => entry.target.map (Step.map Prod.snd)).Pairwise
      fun p q => Apart (pathNames p) (pathNames q) := by
    rw [standFor, List.pairwise_map]
    refine leavesApart.imp ?_
    intro leaf leaf' apart
    rwa [UpdateLeaf.target, UpdateLeaf.target, pathNames_map_name, pathNames_map_name]
  have written : ((UpdateClauses.place (changes [] tree)).run (after steps)).1 =
      .ofChanges (entries.map (Change.map Prod.fst Prod.fst)) :=
    congrArg UpdateClauses.ofChanges out
  rw [written, ((UpdateClauses.targets_ofChanges _).map _).pairwise_iff Apart.symm, List.map_map,
    List.map_map, List.pairwise_map]
  refine (List.pairwise_map.1 entriesApart).imp_of_mem ?_
  intro entry entry' hentry hentry' apart
  obtain ⟨names, nonempty, stands⟩ := exists_names entry hentry
  obtain ⟨names', nonempty', stands'⟩ := exists_names entry' hentry'
  rw [stands, stands', pathNames_map_name, pathNames_map_name] at apart
  simp only [Function.comp_apply, Change.target_map]
  exact wellFormed.apart_segments stands stands' nonempty nonempty' (registered entry hentry)
    (registered entry' hentry') apart

/-- A name with a dot and the names on both of its sides, in a tree that was made in steps, with a
tree inside that was read from a document. -/
theorem targets_apart_dotted : ∃ (tree : UpdateTree) (clauses : PlacedUpdate) (s : Registry),
    tree = set "a"
        (.nested (ofDocument [("b", .null), ("c", .object [("b", .bool true), ("", .null)])]))
        (remove "c" (set "a.b" (.assign .null) [])) ∧
      tree.Built ∧ tree.compile.run.run (after []) = (.ok clauses, s) ∧
      clauses.text = "SET #attr0 = :val1, #attr3.#attr2.#attr4 = :val5 " ++
        "REMOVE #attr2, #attr3.#attr4, #attr3.#attr2.#attr6" ∧
      (clauses.targets.map PlacedPath.segments).Pairwise Apart := by
  have document : Built
      (ofDocument [("b", .null), ("c", .object [("b", .bool true), ("", .null)])]) := by
    refine .ofDocument ⟨by decide, trivial, ⟨by decide, trivial, trivial, trivial⟩, trivial⟩
  have built : Built (set "a"
      (.nested (ofDocument [("b", .null), ("c", .object [("b", .bool true), ("", .null)])]))
      (remove "c" (set "a.b" (.assign .null) []))) := by
    refine .set "a" (.remove "c" (.set "a.b" .new nofun)) ?_
    rintro inner same
    cases same
    exact document
  refine ⟨_, _, _, rfl, built, run_compile_of_leaves_ne_nil ?_ _, by decide, ?_⟩
  · decide
  · refine built.targets_apart.2 [] _ _ (run_compile_of_leaves_ne_nil ?_ _)
    decide

end UpdateTree

end DocumentTable
