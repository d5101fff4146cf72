import DocumentTable.Update.Basic
import Mathlib.Data.List.Induction
import Mathlib.Data.List.Nodup

/-!
# Updates made step by step

A tree is made by setting the actions of names one after the other. A name has the place that its
first step gave it and the action that its last one gave it, and nothing else of the steps can be
seen in the tree.

## Main definitions

* `UpdateStep`, `UpdateTree.build`: trees made step by step
* `UpdateStep.IsLast`: the last action that steps give to a name

## Main results

* `UpdateTree.set_of_mem`, `UpdateTree.set_of_not_mem`: a name is set in its place or at the end
* `UpdateTree.names_build`: names stand in the order of their first steps
* `UpdateTree.mem_build`: names have the actions of their last steps
* `UpdateTree.build_swap`: steps for different names may change places
* `UpdateTree.build_insertionOrdered`: the tree of any steps

## Design notes

A tree that has a name twice would have it set in the first of its places only. Steps make no such
tree, and so most lemmas about one step take the names of the tree to be distinct.
-/

namespace DocumentTable

/-! ### One step -/

namespace UpdateTree

variable {tree tree' : UpdateTree} {name name' : String} {action action' : UpdateAction}

/-- A new name goes to the end, behind all entries that are there. -/
theorem set_of_not_mem (new : name ∉ tree.map Prod.fst) (action : UpdateAction) :
    tree.set name action = tree ++ [(name, action)] := by
  induction tree with
  | nil => rfl
  | cons entry rest ih =>
      obtain ⟨n, a⟩ := entry
      rw [List.map_cons, List.mem_cons, not_or] at new
      rw [set, if_neg (Ne.symm new.1), ih new.2, List.cons_append]

/-- A name that is there is set in its place, and all other entries stay as they are. -/
theorem set_of_mem (distinct : (tree.map Prod.fst).Nodup) (mem : name ∈ tree.map Prod.fst)
    (action : UpdateAction) :
    tree.set name action =
      tree.map fun entry => if entry.1 = name then (name, action) else entry := by
  induction tree with
  | nil => cases mem
  | cons entry rest ih =>
      obtain ⟨n, a⟩ := entry
      obtain ⟨fresh, others⟩ : n ∉ rest.map Prod.fst ∧ (rest.map Prod.fst).Nodup :=
        List.nodup_cons.1 distinct
      rw [set, List.map_cons]
      by_cases same : n = name
      · subst same
        have kept : ∀ entry ∈ rest, (if entry.1 = n then (n, action) else entry) = entry := by
          intro entry isEntry
          refine if_neg ?_
          rintro rfl
          exact fresh (List.mem_map_of_mem isEntry)
        rw [if_pos rfl, if_pos rfl, List.map_congr_left kept, List.map_id']
      · have later := (List.mem_cons.1 mem).resolve_left (Ne.symm same)
        rw [if_neg same, if_neg same, ih others later]

/-- Setting a name that is there adds no entry and moves none. The names have to be distinct, or the
second entry of a name would be lost. -/
theorem names_set_of_mem (distinct : (tree.map Prod.fst).Nodup) (mem : name ∈ tree.map Prod.fst)
    (action : UpdateAction) : (tree.set name action).map Prod.fst = tree.map Prod.fst := by
  rw [set_of_mem distinct mem, List.map_map]
  refine List.map_congr_left fun entry _ => ?_
  rw [Function.comp_apply]
  split
  · next same => exact same.symm
  · rfl

theorem names_set_of_not_mem (new : name ∉ tree.map Prod.fst) (action : UpdateAction) :
    (tree.set name action).map Prod.fst = tree.map Prod.fst ++ [name] := by
  rw [set_of_not_mem new, List.map_append, List.map_singleton]

theorem nodup_names_set (distinct : (tree.map Prod.fst).Nodup) (name : String)
    (action : UpdateAction) : ((tree.set name action).map Prod.fst).Nodup := by
  by_cases mem : name ∈ tree.map Prod.fst
  · rw [names_set_of_mem distinct mem]
    exact distinct
  · rw [names_set_of_not_mem mem, ← List.concat_eq_append]
    exact distinct.concat mem

/-- The entries after a step are the new one and those of other names. -/
theorem mem_set (distinct : (tree.map Prod.fst).Nodup) :
    (name', action') ∈ tree.set name action ↔
      name = name' ∧ action = action' ∨ name ≠ name' ∧ (name', action') ∈ tree := by
  -- a name that is there keeps its place, and a new one is added at the end
  by_cases mem : name ∈ tree.map Prod.fst
  · rw [set_of_mem distinct mem, List.mem_map]
    constructor
    · rintro ⟨entry, isEntry, isNew⟩
      split at isNew
      · exact .inl (Prod.mk.inj isNew)
      · next other =>
          subst isNew
          exact .inr ⟨Ne.symm other, isEntry⟩
    · rintro (⟨rfl, rfl⟩ | ⟨other, isEntry⟩)
      · obtain ⟨entry, isEntry, same⟩ := List.mem_map.1 mem
        exact ⟨entry, isEntry, if_pos same⟩
      · exact ⟨_, isEntry, if_neg (Ne.symm other)⟩
  · rw [set_of_not_mem mem, List.mem_append, List.mem_singleton, Prod.mk.injEq]
    constructor
    · rintro (isEntry | ⟨rfl, rfl⟩)
      · refine .inr ⟨?_, isEntry⟩
        rintro rfl
        exact mem (List.mem_map_of_mem isEntry)
      · exact .inl ⟨rfl, rfl⟩
    · rintro (⟨rfl, rfl⟩ | ⟨-, isEntry⟩)
      · exact .inr ⟨rfl, rfl⟩
      · exact .inl isEntry

/-- Two names are set in any order, up to the order of their entries. -/
theorem set_swap (differ : name ≠ name') (action action' : UpdateAction) (tree : UpdateTree) :
    ((tree.set name action).set name' action').Perm
      ((tree.set name' action').set name action) := by
  induction tree with
  | nil =>
      simp only [set, if_neg differ, if_neg differ.symm]
      exact .swap _ _ _
  | cons entry rest ih =>
      obtain ⟨n, a⟩ := entry
      -- the entry is that of one of the two names, or both go on behind it
      by_cases isFirst : n = name
      · subst isFirst
        simp only [set, if_true, if_neg differ]
        exact .refl _
      · by_cases isSecond : n = name'
        · subst isSecond
          simp only [set, if_true, if_neg isFirst]
          exact .refl _
        · simp only [set, if_neg isFirst, if_neg isSecond]
          exact ih.cons _

/-- The order of the entries does not matter for what is set, up to the order of the result. -/
theorem set_perm (perm : tree.Perm tree') (distinct : (tree.map Prod.fst).Nodup) (name : String)
    (action : UpdateAction) : (tree.set name action).Perm (tree'.set name action) := by
  have names : (tree.map Prod.fst).Perm (tree'.map Prod.fst) := perm.map Prod.fst
  by_cases mem : name ∈ tree.map Prod.fst
  · rw [set_of_mem distinct mem, set_of_mem (names.nodup_iff.1 distinct) (names.mem_iff.1 mem)]
    exact perm.map _
  · rw [set_of_not_mem mem, set_of_not_mem (mt names.mem_iff.2 mem)]
    exact perm.append_right _

end UpdateTree

/-! ### Steps -/

/-- A step in which a tree is made. -/
inductive UpdateStep where
  | set (name : String) (action : UpdateAction)
  | remove (name : String)

namespace UpdateStep

/-- The name that a step is about. -/
def name : UpdateStep → String
  | set name _ => name
  | remove name => name

/-- The action that a step gives to its name. -/
def action : UpdateStep → UpdateAction
  | set _ action => action
  | remove _ => .remove

/-- The tree after a step. -/
def apply (tree : UpdateTree) : UpdateStep → UpdateTree
  | set name action => tree.set name action
  | remove name => tree.remove name

theorem apply_eq_set (tree : UpdateTree) (step : UpdateStep) :
    step.apply tree = tree.set step.name step.action := by
  cases step <;> rfl

/-- An action is the last one that steps give to a name. -/
def IsLast (steps : List UpdateStep) (name : String) (action : UpdateAction) : Prop :=
  ∃ before step behind, steps = before ++ step :: behind ∧
    step.name = name ∧ step.action = action ∧ ∀ later ∈ behind, later.name ≠ name

theorem not_isLast_nil (name : String) (action : UpdateAction) : ¬IsLast [] name action := by
  rintro ⟨before, step, behind, split, -⟩
  exact List.append_ne_nil_of_right_ne_nil before (List.cons_ne_nil step behind) split.symm

/-- The last of some steps is the last one for its name and changes nothing for others. -/
theorem isLast_concat {steps : List UpdateStep} {step : UpdateStep} {name : String}
    {action : UpdateAction} :
    IsLast (steps ++ [step]) name action ↔
      step.name = name ∧ step.action = action ∨ step.name ≠ name ∧ IsLast steps name action := by
  constructor
  · rintro ⟨before, last, behind, split, named, acts, fresh⟩
    -- the last step is the one that is meant, or it is among those behind it
    rcases behind.eq_nil_or_concat' with rfl | ⟨behind, later, rfl⟩
    · obtain ⟨-, same⟩ := List.append_inj' split rfl
      cases same
      exact .inl ⟨named, acts⟩
    · rw [← List.cons_append, ← List.append_assoc] at split
      obtain ⟨rfl, same⟩ := List.append_inj' split rfl
      cases same
      rw [List.forall_mem_append, List.forall_mem_singleton] at fresh
      exact .inr ⟨fresh.2, before, last, behind, rfl, named, acts, fresh.1⟩
  · rintro (⟨named, acts⟩ | ⟨other, before, last, behind, rfl, named, acts, fresh⟩)
    · exact ⟨steps, step, [], rfl, named, acts, nofun⟩
    · refine ⟨before, last, behind ++ [step], ?_, named, acts, ?_⟩
      · rw [List.append_assoc, List.cons_append]
      · rw [List.forall_mem_append, List.forall_mem_singleton]
        exact ⟨fresh, other⟩

end UpdateStep

namespace UpdateTree

open UpdateStep

/-- The tree that is made in some steps. -/
def build (steps : List UpdateStep) : UpdateTree :=
  steps.foldl UpdateStep.apply []

/-- The last step is taken in the tree of the steps before it. -/
theorem build_concat (steps : List UpdateStep) (step : UpdateStep) :
    build (steps ++ [step]) = (build steps).set step.name step.action := by
  rw [build, List.foldl_append]
  exact apply_eq_set _ step

theorem build_append (steps more : List UpdateStep) :
    build (steps ++ more) = more.foldl UpdateStep.apply (build steps) :=
  List.foldl_append

/-- The tree of steps is that of the actions that they give to names. Collecting a list is thus no
other way to make a tree. -/
theorem build_eq_ofList (steps : List UpdateStep) :
    build steps = ofList (steps.map fun step => (step.name, step.action)) := by
  rw [build, ofList, List.foldl_map, funext₂ apply_eq_set]

/-- The tree of actions is that of the steps that set them. -/
theorem ofList_eq_build (entries : List (String × UpdateAction)) :
    ofList entries = build (entries.map fun entry => .set entry.1 entry.2) := by
  rw [build, List.foldl_map]
  rfl

/-- A tree that is made in steps has each name once, by induction on the steps. -/
theorem nodup_build (steps : List UpdateStep) : ((build steps).map Prod.fst).Nodup := by
  induction steps using List.reverseRecOn with
  | nil => exact List.nodup_nil
  | append_singleton steps step ih =>
      rw [build_concat]
      exact nodup_names_set ih _ _

private theorem eraseDups_append_of_mem {name : String} {names : List String}
    (mem : name ∈ names) (more : List String) :
    (names ++ name :: more).eraseDups = (names ++ more).eraseDups := by
  rw [List.eraseDups_append, List.eraseDups_append, List.removeAll, List.filter_cons_of_neg]
  · rfl
  · simpa using mem

private theorem eraseDups_concat_of_not_mem {name : String} {names : List String}
    (new : name ∉ names) : (names ++ [name]).eraseDups = names.eraseDups ++ [name] := by
  rw [List.eraseDups_append, List.removeAll, List.filter_cons_of_pos]
  · rfl
  · simpa using new

/-- The names of a tree are those of its steps, in the order in which they first occur. A later step
for a name does not move it. -/
theorem names_build (steps : List UpdateStep) :
    (build steps).map Prod.fst = (steps.map UpdateStep.name).eraseDups := by
  -- a step looks at the whole tree before it, so the induction is on the last one
  induction steps using List.reverseRecOn with
  | nil => rfl
  | append_singleton steps step ih =>
      have known : step.name ∈ (build steps).map Prod.fst ↔
          step.name ∈ steps.map UpdateStep.name := by
        rw [ih, List.mem_eraseDups]
      rw [build_concat, List.map_append, List.map_singleton]
      by_cases mem : step.name ∈ (build steps).map Prod.fst
      · rw [names_set_of_mem (nodup_build steps) mem, ih,
          eraseDups_append_of_mem (known.1 mem), List.append_nil]
      · rw [names_set_of_not_mem mem, ih, eraseDups_concat_of_not_mem (mt known.2 mem)]

/-- The actions in a tree are the last ones of its steps, and each name of a step has one. -/
theorem mem_build {steps : List UpdateStep} {name : String} {action : UpdateAction} :
    (name, action) ∈ build steps ↔ IsLast steps name action := by
  induction steps using List.reverseRecOn with
  | nil => exact iff_of_false List.not_mem_nil (not_isLast_nil name action)
  | append_singleton steps step ih =>
      rw [build_concat, mem_set (nodup_build steps), isLast_concat, ih]

/-- A step for a name that was there only exchanges its action. -/
theorem build_concat_of_mem {steps : List UpdateStep} {step : UpdateStep}
    (repeated : step.name ∈ steps.map UpdateStep.name) :
    build (steps ++ [step]) = (build steps).map fun entry =>
      if entry.1 = step.name then (step.name, step.action) else entry := by
  have mem : step.name ∈ (build steps).map Prod.fst := by
    rwa [names_build, List.mem_eraseDups]
  rw [build_concat, set_of_mem (nodup_build steps) mem]

/-- A step for a name that was there could be left out without a change of the order. -/
theorem names_build_of_mem {steps : List UpdateStep} {step : UpdateStep}
    (repeated : step.name ∈ steps.map UpdateStep.name) (more : List UpdateStep) :
    (build (steps ++ step :: more)).map Prod.fst = (build (steps ++ more)).map Prod.fst := by
  rw [names_build, names_build, List.map_append, List.map_append, List.map_cons,
    eraseDups_append_of_mem repeated]

/-- Steps do the same to trees that have the same entries, by induction on the steps. -/
theorem foldl_perm {tree tree' : UpdateTree} (perm : tree.Perm tree')
    (distinct : (tree.map Prod.fst).Nodup) (steps : List UpdateStep) :
    (steps.foldl UpdateStep.apply tree).Perm (steps.foldl UpdateStep.apply tree') := by
  induction steps generalizing tree tree' with
  | nil => exact perm
  | cons step rest ih =>
      rw [List.foldl_cons, List.foldl_cons, apply_eq_set, apply_eq_set]
      exact ih (set_perm perm distinct _ _) (nodup_names_set distinct _ _)

/-- Steps for different names may change places, up to the order of the entries. -/
theorem build_swap {first second : UpdateStep} (differ : first.name ≠ second.name)
    (steps more : List UpdateStep) :
    (build (steps ++ first :: second :: more)).Perm
      (build (steps ++ second :: first :: more)) := by
  rw [build_append, build_append, List.foldl_cons, List.foldl_cons, List.foldl_cons,
    List.foldl_cons]
  simp only [apply_eq_set]
  refine foldl_perm (set_swap differ _ _ (build steps)) ?_ more
  exact nodup_names_set (nodup_names_set (nodup_build steps) _ _) _ _

/-- A tree that is made in steps has each of their names once, in the order in which the names first
occur, and each with the last action that it was given. It makes no difference whether the steps are
taken one by one or collected before. Steps for different names may change places, up to the order
of the entries. A step for a name that was there exchanges the action in its place, moves nothing,
and has no influence on the order of what follows. Nothing is asked of the steps, which may name one
attribute any number of times. -/
theorem build_insertionOrdered (steps : List UpdateStep) :
    (build steps).map Prod.fst = (steps.map UpdateStep.name).eraseDups ∧
      ((build steps).map Prod.fst).Nodup ∧
      (∀ name action, (name, action) ∈ build steps ↔ IsLast steps name action) ∧
      build steps = ofList (steps.map fun step => (step.name, step.action)) ∧
      (∀ entries, ofList entries = build (entries.map fun entry => .set entry.1 entry.2)) ∧
      (∀ first second more, first.name ≠ second.name →
        (build (steps ++ first :: second :: more)).Perm
          (build (steps ++ second :: first :: more))) ∧
      ∀ step, step.name ∈ steps.map UpdateStep.name →
        (build (steps ++ [step]) = (build steps).map fun entry =>
          if entry.1 = step.name then (step.name, step.action) else entry) ∧
        ∀ more, (build (steps ++ step :: more)).map Prod.fst =
          (build (steps ++ more)).map Prod.fst := by
  refine ⟨names_build steps, nodup_build steps, fun name action => mem_build,
    build_eq_ofList steps, ofList_eq_build, ?_, ?_⟩
  · intro first second more differ
    exact build_swap differ steps more
  · intro step repeated
    exact ⟨build_concat_of_mem repeated, names_build_of_mem repeated⟩

/-- Two new names change places, and one that was there stays in front of both. -/
theorem build_insertionOrdered_note :
    let ann : UpdateAction := .assign (.string "Ann")
    let steps : List UpdateStep := [.set "name" ann, .remove "note"]
    let age : UpdateStep := .remove "age"
    let visits : UpdateStep := .set "visits"
      (.arithmetic ⟨.path (.ofName "visits"), .plus, .value (.bool true)⟩)
    let note : UpdateStep := .set "note" (.assign .null)
    age.name ≠ visits.name ∧ note.name ∈ steps.map UpdateStep.name ∧
      build (steps ++ [age, visits, note]) = [("name", ann), ("note", .assign .null),
        ("age", .remove), ("visits", visits.action)] ∧
      build (steps ++ [visits, age, note]) = [("name", ann), ("note", .assign .null),
        ("visits", visits.action), ("age", .remove)] ∧
      (build (steps ++ [age, visits, note])).Perm (build (steps ++ [visits, age, note])) ∧
      IsLast steps "note" .remove ∧
      (build (steps ++ [note]) = (build steps).map fun entry =>
        if entry.1 = "note" then ("note", .assign .null) else entry) ∧
      (build (steps ++ [note, age])).map Prod.fst = (build (steps ++ [age])).map Prod.fst := by
  intro ann steps age visits note
  obtain ⟨-, -, last, -, -, swap, again⟩ := build_insertionOrdered steps
  have differ : age.name ≠ visits.name := by decide
  have repeated : note.name ∈ steps.map UpdateStep.name := by decide
  obtain ⟨inPlace, order⟩ := again note repeated
  have removed : ("note", .remove) ∈ build steps := List.mem_cons_of_mem _ List.mem_cons_self
  exact ⟨differ, repeated, rfl, rfl, swap age visits [note] differ,
    (last "note" .remove).1 removed, inPlace, order [age]⟩

end UpdateTree

end DocumentTable
