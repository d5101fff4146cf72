import DocumentTable.Proofs.Spelling
import DocumentTable.Proofs.Targets

/-!
# Updates made of documents

A document says what to do with an item: null removes, an object goes on inside, and anything else
is assigned as a whole. The update that is made of it is read back as the same document, but for
objects with nothing inside.

## Main definitions

* `Json.putAt`, `Json.putAll`: a value with others put at paths
* `Json.leaves`: the values that objects lead to
* `Json.isHollow`, `Json.pruned`: a value without leaves, and one without the hollow objects in it
* `UpdateSection.entriesOf?`: the values that sections put at paths

## Main results

* `Json.putAt_comm`: values are put at paths that lie apart in any order
* `Json.putAll_leaves`: a value without its hollow objects is rebuilt from its leaves
* `UpdateTree.ofDocument_rebuilds`: reading the update of a document back rebuilds the document

## Design notes

An update writes assignments before removals, so the leaves come back in another order. Since their
paths lie apart, the order does not matter, and the document may be rebuilt in its own.
-/

namespace DocumentTable

open Registry

/-! ### Values put at paths -/

namespace Json

/-- The members of an object. -/
def members : Json → Document
  | .object members => members
  | _ => []

/-- A value with another one put at a path of names, through objects that are made where there are
none. -/
def putAt : (path : List String) → (value old : Json) → Json
  | [], value, _ => value
  | name :: rest, value, old =>
    .object (Dict.insert name (putAt rest value ((Dict.get? old.members name).getD .null))
      old.members)

/-- A value with others put at paths one after the other. -/
def putAll (entries : List (List String × Json)) (old : Json) : Json :=
  entries.foldl (fun old entry => putAt entry.1 entry.2 old) old

/-- Values are put one after the other, those of the first list before those of the second. -/
theorem putAll_append (entries entries' : List (List String × Json)) (old : Json) :
    putAll (entries ++ entries') old = putAll entries' (putAll entries old) :=
  List.foldl_append

/-- Values are put at paths that lie apart in any order. One path in front of the other would decide
what is left of the first value. -/
theorem putAt_comm {path path' : List String} (apart : Apart path path') (a b old : Json) :
    putAt path a (putAt path' b old) = putAt path' b (putAt path a old) := by
  induction path generalizing path' old with
  | nil => exact absurd List.nil_prefix apart.1
  | cons name rest ih =>
      cases path' with
      | nil => exact absurd List.nil_prefix apart.2
      | cons name' rest' =>
          simp only [putAt, members]
          by_cases same : name = name'
          · subst same
            rw [Dict.get?_insert_self, Dict.get?_insert_self, Dict.insert_insert_self,
              Dict.insert_insert_self, Option.getD_some, Option.getD_some, ih (apart_cons.1 apart)]
          · rw [Dict.get?_insert_of_ne same, Dict.get?_insert_of_ne (Ne.symm same),
              Dict.insert_comm same]

/-- Values at paths that lie apart may be put there in any order. -/
theorem putAll_perm {entries entries' : List (List String × Json)}
    (apart : entries.Pairwise fun a b => Apart a.1 b.1) (perm : entries.Perm entries')
    (old : Json) : putAll entries old = putAll entries' old := by
  have symmetric : Std.Symm fun a b : List String × Json => Apart a.1 b.1 :=
    ⟨fun _ _ => Apart.symm⟩
  refine perm.foldl_eq' (fun a ha b hb old => ?_) old
  by_cases same : a = b
  · rw [same]
  · exact putAt_comm (apart.forall ha hb same).symm _ _ old

/-! ### Leaves of documents -/

mutual

/-- The values that a value leads to and that are not objects, each behind the names that lead to
it. -/
def leaves : Json → List (List String × Json)
  | .object members => leavesOfMembers members
  | .null => [([], .null)]
  | .bool b => [([], .bool b)]
  | .number n => [([], .number n)]
  | .string s => [([], .string s)]
  | .array items => [([], .array items)]

/-- The leaves of members. -/
def leavesOfMembers : List (String × Json) → List (List String × Json)
  | [] => []
  | (name, value) :: rest =>
    (leaves value).map (Prod.map (name :: ·) id) ++ leavesOfMembers rest

end

mutual

/-- Whether a value is an object without leaves. -/
def isHollow : Json → Bool
  | .object members => areHollow members
  | _ => false

/-- Whether members have no leaves. -/
def areHollow : List (String × Json) → Bool
  | [] => true
  | (_, value) :: rest => isHollow value && areHollow rest

end

mutual

/-- A value without the hollow objects inside its objects. -/
def pruned : Json → Json
  | .object members => .object (prunedMembers members)
  | .null => .null
  | .bool b => .bool b
  | .number n => .number n
  | .string s => .string s
  | .array items => .array items

/-- Members without those that are hollow. -/
def prunedMembers : List (String × Json) → Document
  | [] => []
  | (name, value) :: rest =>
    if isHollow value then prunedMembers rest else (name, pruned value) :: prunedMembers rest

end

mutual

/-- A value without leaves is hollow: an object in which nothing but objects is found. -/
theorem leaves_eq_nil_iff {value : Json} : leaves value = [] ↔ isHollow value := by
  cases value with
  | object members => exact leavesOfMembers_eq_nil_iff
  | _ => simp [leaves, isHollow]

/-- Members without leaves are hollow, all of them. -/
theorem leavesOfMembers_eq_nil_iff {members : List (String × Json)} :
    leavesOfMembers members = [] ↔ areHollow members := by
  cases members with
  | nil => simp [leavesOfMembers, areHollow]
  | cons member rest =>
      obtain ⟨name, value⟩ := member
      rw [leavesOfMembers, List.append_eq_nil_iff, List.map_eq_nil_iff, leaves_eq_nil_iff,
        leavesOfMembers_eq_nil_iff, areHollow, Bool.and_eq_true]

end

mutual

/-- No leaf is an object, since objects are gone into. Arrays are not, and are leaves as a whole. -/
theorem ne_object_of_mem_leaves {value : Json} {leaf : List String × Json}
    (mem : leaf ∈ leaves value) (members : Document) : leaf.2 ≠ .object members := by
  cases value with
  | object inner => exact ne_object_of_mem_leavesOfMembers mem members
  | _ =>
      rw [leaves, List.mem_singleton] at mem
      subst mem
      nofun

/-- No leaf of members is an object. -/
theorem ne_object_of_mem_leavesOfMembers {inner : List (String × Json)}
    {leaf : List String × Json} (mem : leaf ∈ leavesOfMembers inner) (members : Document) :
    leaf.2 ≠ .object members := by
  cases inner with
  | nil => cases mem
  | cons member rest =>
      obtain ⟨name, value⟩ := member
      rw [leavesOfMembers, List.mem_append, List.mem_map] at mem
      rcases mem with ⟨leaf, mem, rfl⟩ | mem
      · exact ne_object_of_mem_leaves mem members
      · exact ne_object_of_mem_leavesOfMembers mem members

end

/-- A leaf of members is below the name of one of them. -/
theorem ne_nil_of_mem_leavesOfMembers {inner : List (String × Json)} {leaf : List String × Json}
    (mem : leaf ∈ leavesOfMembers inner) : leaf.1 ≠ [] := by
  induction inner with
  | nil => cases mem
  | cons member rest ih =>
      obtain ⟨name, value⟩ := member
      rw [leavesOfMembers, List.mem_append, List.mem_map] at mem
      rcases mem with ⟨leaf, -, rfl⟩ | mem
      · exact List.cons_ne_nil _ _
      · exact ih mem

/-- A value below a name makes an object of null, so that it makes no difference which of the two
was there. -/
theorem putAll_null_eq {entries : List (List String × Json)} (nonempty : entries ≠ [])
    (below : ∀ entry ∈ entries, entry.1 ≠ []) :
    putAll entries .null = putAll entries (.object []) := by
  obtain ⟨⟨path, value⟩, rest, rfl⟩ := List.exists_cons_of_ne_nil nonempty
  obtain ⟨name, path, rfl⟩ := List.exists_cons_of_ne_nil (below _ List.mem_cons_self)
  rfl

/-- Values below a name are put in what the name has. -/
theorem putAll_under (name : String) (entries : List (List String × Json)) (inner : Json)
    (d : Document) :
    putAll (entries.map (Prod.map (name :: ·) id)) (.object (Dict.insert name inner d)) =
      .object (Dict.insert name (putAll entries inner) d) := by
  induction entries generalizing inner with
  | nil => rfl
  | cons entry rest ih =>
      rw [List.map_cons]
      show putAll _ (putAt (name :: entry.1) entry.2 _) = _
      rw [putAt, members, Dict.get?_insert_self, Option.getD_some, Dict.insert_insert_self, ih]
      rfl

/-- Values below a new name are put in a value of their own. -/
theorem putAll_under_new {name : String} {entries : List (List String × Json)}
    (nonempty : entries ≠ []) {d : Document} (new : Dict.get? d name = none) :
    putAll (entries.map (Prod.map (name :: ·) id)) (.object d) =
      .object (Dict.insert name (putAll entries .null) d) := by
  obtain ⟨entry, rest, rfl⟩ := List.exists_cons_of_ne_nil nonempty
  show putAll _ (putAt (name :: entry.1) entry.2 _) = _
  rw [putAt, members, new, Option.getD_none, putAll_under]
  rfl

mutual

/-- A value without its hollow objects is rebuilt from its leaves, by induction on the value. A
hollow value is excluded, as nothing would be put. -/
theorem putAll_leaves {value : Json} (inOrder : value.inOrder = value)
    (solid : ¬isHollow value) : putAll (leaves value) .null = pruned value := by
  cases value with
  | object inner =>
      obtain ⟨sorted, inOrder⟩ := inOrder_object.1 inOrder
      -- the first leaf makes an object of null as well
      have fromObject : putAll (leavesOfMembers inner) .null =
          putAll (leavesOfMembers inner) (.object []) :=
        putAll_null_eq (mt leavesOfMembers_eq_nil_iff.1 solid) fun leaf mem =>
          ne_nil_of_mem_leavesOfMembers mem
      rw [leaves, fromObject, putAll_leavesOfMembers (d := []) (List.pairwise_map.2 sorted) inOrder]
      rfl
  | _ => rfl

/-- Members are added behind others as they are rebuilt from their leaves. -/
theorem putAll_leavesOfMembers {d inner : Document}
    (sorted : (Dict.keys d ++ Dict.keys inner).Pairwise (· < ·))
    (inOrder : ∀ member ∈ inner, member.2.inOrder = member.2) :
    putAll (leavesOfMembers inner) (.object d) = .object (d ++ prunedMembers inner) := by
  cases inner with
  | nil =>
      rw [prunedMembers, List.append_nil]
      rfl
  | cons member rest =>
      obtain ⟨name, value⟩ := member
      rw [List.forall_mem_cons] at inOrder
      rw [leavesOfMembers, putAll_append, prunedMembers]
      split
      · next hollow =>
          rw [leaves_eq_nil_iff.2 hollow]
          refine putAll_leavesOfMembers (sorted.sublist ?_) inOrder.2
          exact (List.Sublist.refl _).append (List.sublist_cons_self name _)
      · next solid =>
          -- names come in order, so that a new member goes to the end
          have behind : ∀ k ∈ Dict.keys d, k < name :=
            fun k mem => (List.pairwise_append.1 sorted).2.2 k mem name List.mem_cons_self
          have new : Dict.get? d name = none :=
            Dict.get?_eq_none fun mem => lt_irrefl name (behind name mem)
          rw [putAll_under_new (mt leaves_eq_nil_iff.1 solid) new, putAll_leaves inOrder.1 solid,
            Dict.insert_eq_append _ behind, putAll_leavesOfMembers ?_ inOrder.2, List.append_assoc]
          · rfl
          · simpa [Dict.keys] using sorted

end

end Json

/-! ### The tree of a document -/

namespace UpdateTree

mutual

/-- The leaves of the tree of a document are those of the document. -/
theorem leaves_ofDocument (document : Document) :
    leaves (ofDocument document) =
      (Json.leavesOfMembers document).map fun leaf => ⟨leaf.1, ofValue leaf.2⟩ := by
  cases document with
  | nil => rfl
  | cons member rest =>
      obtain ⟨name, value⟩ := member
      rw [ofDocument, leaves, leavesOfAction_ofValue, leaves_ofDocument rest,
        Json.leavesOfMembers, List.map_append, List.map_map, List.map_map]
      rfl

/-- The leaves of the action of a value are those of the value. -/
theorem leavesOfAction_ofValue (value : Json) :
    leavesOfAction (ofValue value) =
      value.leaves.map fun leaf => ⟨leaf.1, ofValue leaf.2⟩ := by
  cases value with
  | object members => exact leaves_ofDocument members
  | _ => rfl

end

end UpdateTree

namespace Json

mutual

/-- A value in order has no name twice in an object, since sorted names are different. -/
theorem distinctNames_of_inOrder {value : Json} (inOrder : value.inOrder = value) :
    value.DistinctNames := by
  cases value with
  | object members =>
      obtain ⟨sorted, inOrder⟩ := inOrder_object.1 inOrder
      exact ⟨sorted.nodup_keys, distinctNamesOfMembers_of_inOrder inOrder⟩
  | array items => exact distinctNamesOfItems_of_inOrder (inOrder_array.1 inOrder)
  | _ => trivial

theorem distinctNamesOfItems_of_inOrder {items : List Json}
    (inOrder : ∀ item ∈ items, item.inOrder = item) : DistinctNamesOfItems items := by
  cases items with
  | nil => trivial
  | cons item rest =>
      rw [List.forall_mem_cons] at inOrder
      exact ⟨distinctNames_of_inOrder inOrder.1, distinctNamesOfItems_of_inOrder inOrder.2⟩

/-- Members in order have no name twice in an object inside of them. -/
theorem distinctNamesOfMembers_of_inOrder {members : List (String × Json)}
    (inOrder : ∀ member ∈ members, member.2.inOrder = member.2) :
    DistinctNamesOfMembers members := by
  cases members with
  | nil => trivial
  | cons member rest =>
      rw [List.forall_mem_cons] at inOrder
      exact ⟨distinctNames_of_inOrder inOrder.1, distinctNamesOfMembers_of_inOrder inOrder.2⟩

end

/-- The leaves of a document lie apart, so that they may be put back in any order. -/
theorem pairwise_leavesOfMembers {document : Document}
    (distinct : (object document).DistinctNames) :
    (leavesOfMembers document).Pairwise fun a b => Apart a.1 b.1 := by
  have apart := (UpdateTree.distinct_ofDocument distinct.1 distinct.2).pairwise_leaves
  rw [UpdateTree.leaves_ofDocument, List.pairwise_map] at apart
  exact apart

end Json

/-! ### Sections as values at paths -/

/-- The names of a path that has no positions in lists. -/
def Path.names? (path : Path) : Option (List String) :=
  path.mapM fun
    | .name n => some n
    | .index _ => none

theorem Path.names?_map_name (names : List String) :
    names? (names.map .name) = some names := by
  have found : names? (names.map .name) = some (names.map id) := mapM_map_eq_some fun _ _ => rfl
  rwa [List.map_id] at found

/-- The names and the value of an assignment of a value. -/
def Assignment.literal? (a : Assignment String Json) : Option (List String × Json) :=
  match a.value with
  | .operand (.value v) => (Path.names? a.target).map fun names => (names, v)
  | _ => none

/-- The names of a removal, with null in the place of a value. -/
def Path.dropped? (path : Path) : Option (List String × Json) :=
  (names? path).map fun names => (names, .null)

/-- An assignment of a value at a path of names puts the value there. -/
theorem Assignment.literal?_names (names : List String) (value : Json) :
    literal? ⟨names.map .name, .operand (.value value)⟩ = some (names, value) := by
  rw [literal?, Path.names?_map_name]
  rfl

theorem Path.dropped?_names (names : List String) :
    dropped? (names.map .name) = some (names, .null) := by
  rw [dropped?, names?_map_name]
  rfl

/-- The values that sections put at paths, where null stands for a removal. -/
def UpdateSection.entriesOf? :
    List (UpdateSection String Json) → Option (List (List String × Json))
  | [] => some []
  | .set assignments :: rest => do
    return (← assignments.mapM Assignment.literal?) ++ (← entriesOf? rest)
  | .remove targets :: rest => do
    return (← targets.mapM Path.dropped?) ++ (← entriesOf? rest)

/-- What sections put is what assignments put and then what removals do. -/
theorem UpdateClauses.entriesOf?_sections {u : UpdateClauses String Json}
    {sets removes : List (List String × Json)}
    (isSets : u.sets.mapM Assignment.literal? = some sets)
    (isRemoves : u.removes.mapM Path.dropped? = some removes) :
    UpdateSection.entriesOf? u.sections = some (sets ++ removes) := by
  obtain ⟨as, ps⟩ := u
  have removals : UpdateSection.entriesOf? (sections ⟨[], ps⟩) = some removes := by
    cases ps with
    | nil => exact isRemoves
    | cons p ps =>
        dsimp only at isRemoves
        simp [sections, UpdateSection.entriesOf?, isRemoves]
  cases as with
  | nil =>
      cases isSets
      exact removals
  | cons a as =>
      show UpdateSection.entriesOf? (.set (a :: as) :: sections ⟨[], ps⟩) = _
      dsimp only at isSets
      rw [UpdateSection.entriesOf?, removals, isSets]
      rfl

/-- What is made of some members of a list, and gives these back, gives back all that it was made
of. -/
theorem mapM_filterMap_eq_some {α γ : Type} {make : α → Option γ} {back : γ → Option α}
    {p : α → Bool} {l : List α}
    (h : ∀ x ∈ l, if p x then ∃ y, make x = some y ∧ back y = some x else make x = none) :
    (l.filterMap make).mapM back = some (l.filter p) := by
  induction l with
  | nil => rfl
  | cons x rest ih =>
      rw [List.forall_mem_cons] at h
      obtain ⟨first, others⟩ := h
      split at first
      · next holds =>
          obtain ⟨y, made, isBack⟩ := first
          rw [List.filterMap_cons_some made, List.filter_cons_of_pos holds, List.mapM_cons, isBack,
            ih others]
          rfl
      · next fails =>
          rw [List.filterMap_cons_none first, List.filter_cons_of_neg fails, ih others]

namespace UpdateTree

/-- Whether a leaf of a document is not null. -/
def isAssigned (leaf : List String × Json) : Bool :=
  leaf.2 != .null

/-- The sections of the tree of a document put its leaves in their places, those that are null
behind the others. The order is another one than that of the document, which is why the leaves have
to lie apart. -/
theorem entriesOf?_sections_ofDocument (document : Document) :
    UpdateSection.entriesOf? (ofDocument document).sections =
      some ((Json.leavesOfMembers document).filter isAssigned ++
        (Json.leavesOfMembers document).filter fun leaf => !isAssigned leaf) := by
  have notObject (leaf : List String × Json) (mem : leaf ∈ Json.leavesOfMembers document) :=
    Json.ne_object_of_mem_leavesOfMembers mem
  rw [sections, leaves_ofDocument, List.filterMap_map, List.filterMap_map]
  apply UpdateClauses.entriesOf?_sections
  · refine mapM_filterMap_eq_some fun leaf mem => ?_
    obtain ⟨names, value⟩ := leaf
    cases value with
    | null => rfl
    | object members => exact absurd rfl (notObject _ mem members)
    | _ => exact ⟨_, rfl, Assignment.literal?_names names _⟩
  · refine mapM_filterMap_eq_some fun leaf mem => ?_
    obtain ⟨names, value⟩ := leaf
    cases value with
    | null => exact ⟨_, rfl, Path.dropped?_names names⟩
    | object members => exact absurd rfl (notObject _ mem members)
    | _ => rfl

end UpdateTree

/-! ### Rebuilding a document -/

namespace UpdateTree

/-- The changes that a document says can be read, since its leaves read from no path. -/
theorem fits_changes_ofDocument (document : Document) :
    ∀ change ∈ changes [] (ofDocument document), change.Fits := by
  refine fits_changes fun leaf isLeaf => ?_
  rw [leaves_ofDocument, List.mem_map] at isLeaf
  obtain ⟨⟨names, value⟩, mem, rfl⟩ := isLeaf
  cases value with
  | object members => exact absurd rfl (Json.ne_object_of_mem_leavesOfMembers mem members)
  | _ => exact List.forall_mem_nil _

/-- The tree of a document has no leaves when the document is hollow. -/
theorem leaves_ofDocument_eq_nil_iff {document : Document} :
    leaves (ofDocument document) = [] ↔ Json.areHollow document := by
  rw [leaves_ofDocument, List.map_eq_nil_iff, Json.leavesOfMembers_eq_nil_iff]

/-- The update of a document is refused if and only if the document has no leaf. Otherwise its text
is read in one way, and the values that it puts at paths, with null where it removes, are the leaves
of the document, arrays as a whole. Put into an empty document they rebuild the document without its
hollow objects. The document is in order, as every object that was read is. -/
theorem ofDocument_rebuilds {document : Document}
    (inOrder : (Json.object document).inOrder = .object document) (steps : List RegistryStep) :
    (((ofDocument document).compile.run.run (after steps)).1 = .error .emptyUpdate ↔
      Json.areHollow document = true) ∧
    (Json.areHollow document = false → ∃ clauses s read sections entries,
      (ofDocument document).compile.run.run (after steps) = (.ok clauses, s) ∧
        UpdateRead (tokens clauses.text) read ∧
        (∀ other, UpdateRead (tokens clauses.text) other → other = read) ∧
        read.mapM (UpdateSection.resolve s.nameOf? s.valueDict.get?) = some sections ∧
        UpdateSection.entriesOf? sections = some entries ∧
        entries.Perm (Json.leavesOfMembers document) ∧
        Json.putAll entries (.object []) = .object (Json.prunedMembers document)) := by
  constructor
  · rw [← leaves_ofDocument_eq_nil_iff]
    constructor
    · intro refused
      by_contra leaves
      rw [run_compile_of_leaves_ne_nil leaves] at refused
      cases refused
    · intro noLeaves
      rw [run_compile_of_leaves_eq_nil noLeaves]
  · intro solid
    have leaves : leaves (ofDocument document) ≠ [] := by
      rw [Ne, leaves_ofDocument_eq_nil_iff, solid]
      exact Bool.false_ne_true
    obtain ⟨read, isRead, unique, resolved⟩ :=
      Change.exists_read (fits_changes_ofDocument document) steps rfl
    refine ⟨_, _, read, _, _, run_compile_of_leaves_ne_nil leaves _, isRead, unique, resolved, ?_,
      List.filter_append_perm isAssigned _, ?_⟩
    · rw [← sections_eq]
      exact entriesOf?_sections_ofDocument document
    · obtain ⟨sorted, membersInOrder⟩ := Json.inOrder_object.1 inOrder
      have apart := Json.pairwise_leavesOfMembers (Json.distinctNames_of_inOrder inOrder)
      have perm := List.filter_append_perm isAssigned (Json.leavesOfMembers document)
      rw [← Json.putAll_perm apart perm.symm]
      exact Json.putAll_leavesOfMembers (d := []) (List.pairwise_map.2 sorted) membersInOrder

/-- Nulls in an array and outside of one, a hollow object inside another one, and a name at two
levels. -/
theorem ofDocument_rebuilds_hollow_inside :
    let document : Document := [("a", .object [("b", .null), ("c", .object [("d", .object [])])]),
      ("b", .array [.null, .object []]), ("c", .object [])]
    (Json.object document).inOrder = .object document ∧
      Json.areHollow document = false ∧
      ∃ clauses s read sections entries,
        (ofDocument document).compile.run.run (after []) = (.ok clauses, s) ∧
          clauses.text = "SET #attr1 = :val2 REMOVE #attr0.#attr1" ∧
          UpdateRead (tokens clauses.text) read ∧
          read.mapM (UpdateSection.resolve s.nameOf? s.valueDict.get?) = some sections ∧
          UpdateSection.entriesOf? sections = some entries ∧
          Json.putAll entries (.object []) =
            .object [("a", .object [("b", .null)]), ("b", .array [.null, .object []])] := by
  intro document
  have inOrder : (Json.object document).inOrder = .object document := by decide
  have solid : Json.areHollow document = false := by decide
  obtain ⟨clauses, s, read, sections, entries, run, isRead, -, resolved, isEntries, -, rebuilt⟩ :=
    (ofDocument_rebuilds inOrder []).2 solid
  refine ⟨inOrder, solid, clauses, s, read, sections, entries, run, ?_, isRead, resolved, isEntries,
    rebuilt⟩
  have text := congrArg (fun outcome => outcome.1.map UpdateClauses.text) run
  refine Except.ok.inj (text.symm.trans ?_)
  decide

end UpdateTree

end DocumentTable
