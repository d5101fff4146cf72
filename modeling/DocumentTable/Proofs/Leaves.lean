import DocumentTable.Proofs.Draft

/-!
# Leaves of update trees

An update is a tree of names with actions at its leaves. What it changes is the list of its leaves
in the order of their entries, and the changes that are compiled are these.

## Main definitions

* `UpdateLeaf`: an action and the names that lead to it
* `UpdateTree.leaves`: the leaves of a tree, those inside an entry in the place of the entry
* `UpdateLeaf.assignment?`, `UpdateLeaf.removal?`: what a leaf says

## Main results

* `UpdateTree.changes_eq_leaves`: the changes of a tree are those of its leaves
-/

namespace DocumentTable

/-- An action of an update tree and the names that lead to it. -/
structure UpdateLeaf where
  names : List String
  action : UpdateAction

namespace UpdateLeaf

/-- The leaf seen from outside of an attribute. -/
def under (name : String) (leaf : UpdateLeaf) : UpdateLeaf :=
  ⟨name :: leaf.names, leaf.action⟩

/-- The path to a leaf. -/
def target (leaf : UpdateLeaf) : Path :=
  leaf.names.map .name

/-- What a leaf sets its attribute to, if it does. -/
def assigned? (leaf : UpdateLeaf) : Option (AssignedValue String Json) :=
  match leaf.action with
  | .assign value => some (.operand (.value value))
  | .fallback f => some (.operand (.fallback f.path f.value))
  | .arithmetic a => some (.arithmetic a.left.draft a.op a.right.draft)
  | .remove => none
  | .nested _ => none

/-- The assignment of a leaf that is one. -/
def assignment? (leaf : UpdateLeaf) : Option (Assignment String Json) :=
  leaf.assigned?.map fun value => ⟨leaf.target, value⟩

/-- The attribute that a leaf removes, if it does. -/
def removal? (leaf : UpdateLeaf) : Option Path :=
  match leaf.action with
  | .remove => some leaf.target
  | _ => none

/-- The change of a leaf behind a path. -/
def change? (path : Path) (leaf : UpdateLeaf) : Option (Change String Json) :=
  match leaf.action with
  | .remove => some (.remove (path ++ leaf.target))
  | _ => leaf.assigned?.map fun value => .set ⟨path ++ leaf.target, value⟩

theorem change?_under (path : Path) (name : String) (leaf : UpdateLeaf) :
    (leaf.under name).change? path = leaf.change? (path.child name) := by
  obtain ⟨names, action⟩ := leaf
  have target : path ++ (under name ⟨names, action⟩).target =
      path.child name ++ target ⟨names, action⟩ := by
    simp [under, UpdateLeaf.target, Path.child]
  cases action <;> simp only [change?, assigned?, under, Option.map_some, Option.map_none] <;>
    rw [← target] <;> rfl

end UpdateLeaf

namespace UpdateTree

mutual

/-- The leaves of a tree, from first to last. -/
def leaves : UpdateTree → List UpdateLeaf
  | [] => []
  | (name, action) :: rest => (leavesOfAction action).map (UpdateLeaf.under name) ++ leaves rest

/-- The leaves of one entry, as seen from the entry. -/
def leavesOfAction : UpdateAction → List UpdateLeaf
  | .nested entries => leaves entries
  | .remove => [⟨[], .remove⟩]
  | .assign value => [⟨[], .assign value⟩]
  | .fallback fallback => [⟨[], .fallback fallback⟩]
  | .arithmetic arithmetic => [⟨[], .arithmetic arithmetic⟩]

end

mutual

/-- The changes of a tree are those of its leaves, in their order. Walking over the tree and listing
its leaves are thus the same. -/
theorem changes_eq_leaves (path : Path) (tree : UpdateTree) :
    changes path tree = (leaves tree).filterMap (UpdateLeaf.change? path) := by
  cases tree with
  | nil => rfl
  | cons entry rest =>
      obtain ⟨name, action⟩ := entry
      rw [changes, leaves, List.filterMap_append, List.filterMap_map,
        changesOfAction_eq_leaves, changes_eq_leaves path rest]
      congr 2
      funext leaf
      exact (leaf.change?_under path name).symm

theorem changesOfAction_eq_leaves (target : Path) (action : UpdateAction) :
    changesOfAction target action =
      (leavesOfAction action).filterMap (UpdateLeaf.change? target) := by
  cases action with
  | nested entries => exact changes_eq_leaves target entries
  | _ =>
      simp [changesOfAction, leavesOfAction, UpdateLeaf.change?, UpdateLeaf.assigned?,
        UpdateLeaf.target, Fallback.draft, Arithmetic.draft]

end

mutual

/-- A leaf is not a tree. -/
theorem action_ne_nested_of_mem_leaves {tree : UpdateTree} {leaf : UpdateLeaf}
    (h : leaf ∈ leaves tree) (entries : UpdateTree) : leaf.action ≠ .nested entries := by
  cases tree with
  | nil => cases h
  | cons entry rest =>
      obtain ⟨name, action⟩ := entry
      rw [leaves, List.mem_append, List.mem_map] at h
      rcases h with ⟨inner, hinner, rfl⟩ | h
      · exact action_ne_nested_of_mem_leavesOfAction hinner entries
      · exact action_ne_nested_of_mem_leaves h entries

theorem action_ne_nested_of_mem_leavesOfAction {action : UpdateAction} {leaf : UpdateLeaf}
    (h : leaf ∈ leavesOfAction action) (entries : UpdateTree) : leaf.action ≠ .nested entries := by
  cases action with
  | nested inner =>
      rw [leavesOfAction] at h
      exact action_ne_nested_of_mem_leaves h entries
  | _ =>
      rw [leavesOfAction, List.mem_singleton] at h
      subst h
      nofun

end

/-- A leaf is below at least one name. -/
theorem names_ne_nil_of_mem_leaves {tree : UpdateTree} {leaf : UpdateLeaf}
    (h : leaf ∈ leaves tree) : leaf.names ≠ [] := by
  induction tree with
  | nil => cases h
  | cons entry rest ih =>
      obtain ⟨name, action⟩ := entry
      rw [leaves, List.mem_append, List.mem_map] at h
      rcases h with ⟨inner, _, rfl⟩ | h
      · exact List.cons_ne_nil _ _
      · exact ih h

/-- Each leaf is a change. -/
theorem isSome_change?_of_mem_leaves {tree : UpdateTree} {leaf : UpdateLeaf}
    (h : leaf ∈ leaves tree) (path : Path) : (leaf.change? path).isSome := by
  have notNested := action_ne_nested_of_mem_leaves h
  obtain ⟨names, action⟩ := leaf
  cases action with
  | nested entries => exact absurd rfl (notNested entries)
  | _ => rfl

/-- A tree changes nothing if and only if it has no leaf. -/
theorem changes_eq_nil_iff {path : Path} {tree : UpdateTree} :
    changes path tree = [] ↔ leaves tree = [] := by
  rw [changes_eq_leaves, List.filterMap_eq_nil_iff]
  constructor
  · intro h
    by_contra nonempty
    obtain ⟨leaf, hleaf⟩ := List.exists_mem_of_ne_nil _ nonempty
    have some := isSome_change?_of_mem_leaves hleaf path
    rw [h leaf hleaf] at some
    cases some
  · intro h
    rw [h]
    exact List.forall_mem_nil _

end UpdateTree

end DocumentTable
