import DocumentTable.Proofs.Closure
import DocumentTable.Proofs.Partition
import DocumentTable.Proofs.UpdateReading
import DocumentTable.Proofs.UpdateText

/-!
# What an update does in a store

Of the leaves of an update tree a store follows those at the top that assign a value or remove an
attribute. All others it leaves alone.

## Main definitions

* `Assignment.plain?`: the name and the value of an assignment of a value at the top of an item
* `UpdateTree.assigned`, `UpdateTree.removed`: what a tree says at the top
* `Store.setAll`, `Store.eraseAll`: an item with attributes set, and without some

## Main results

* `Table.applyUpdate_of_updateRequest`: the item after the update of a request that a table builds

## Design notes

The store looks targets and values up among the names and values of the request. A longer path and a
value that is not a literal are no keys there, whatever else the condition of the request has added.
-/

namespace DocumentTable

open Registry

variable {ν ν' β β' : Type}

/-! ### Changes at the top -/

/-- The name of a path that is no longer. -/
def single? : List (Step ν) → Option ν
  | [.name n] => some n
  | _ => none

/-- A path is that of an attribute at the top when it is its name and nothing else. -/
theorem single?_eq_some_iff {path : List (Step ν)} {n : ν} :
    single? path = some n ↔ path = [.name n] := by
  constructor
  · intro isSingle
    unfold single? at isSingle
    split at isSingle <;> cases isSingle
    rfl
  · rintro rfl
    rfl

theorem single?_map (f : ν → ν') (path : List (Step ν)) :
    single? (path.map (Step.map f)) = (single? path).map f := by
  cases path with
  | nil => rfl
  | cons step rest =>
      cases step <;> cases rest <;> rfl

/-- The name and the value of an assignment of a value to a name alone. -/
def Assignment.plain? (a : Assignment ν β) : Option (ν × β) :=
  match single? a.target, a.value with
  | some n, .operand (.value v) => some (n, v)
  | _, _ => none

/-- An assignment is plain when it gives a value to an attribute at the top. -/
theorem Assignment.plain?_eq_some_iff {a : Assignment ν β} {n : ν} {v : β} :
    a.plain? = some (n, v) ↔ a = ⟨[.name n], .operand (.value v)⟩ := by
  obtain ⟨target, value⟩ := a
  constructor
  · intro isPlain
    unfold plain? at isPlain
    split at isPlain
    · next isSingle isValue =>
        cases isPlain
        rw [mk.injEq]
        exact ⟨single?_eq_some_iff.1 isSingle, isValue⟩
    · cases isPlain
  · intro same
    cases same
    rfl

theorem Assignment.plain?_map (f : ν → ν') (g : β → β') (a : Assignment ν β) :
    (a.map f g).plain? = a.plain?.map (Prod.map f g) := by
  obtain ⟨target, value⟩ := a
  unfold plain? Assignment.map
  dsimp only
  rw [single?_map]
  cases single? target with
  | none => rfl
  | some n =>
      cases value with
      | operand o => cases o <;> rfl
      | arithmetic => rfl

namespace UpdateTree

/-- The attributes that a tree assigns at the top, with their values. -/
def assigned (tree : UpdateTree) : List (String × Json) :=
  tree.filterMap fun
    | (name, .assign value) => some (name, value)
    | _ => none

/-- The attributes that a tree removes at the top. -/
def removed (tree : UpdateTree) : List String :=
  tree.filterMap fun
    | (name, .remove) => some name
    | _ => none

end UpdateTree

/-- The name and the value of a change that assigns a value to a name alone. -/
def Change.plain? : Change ν β → Option (ν × β)
  | set a => a.plain?
  | remove _ => none

/-- The name of a change that removes a name alone. -/
def Change.dropped? : Change ν β → Option ν
  | set _ => none
  | remove path => single? path

/-- The plain assignments of clauses are those of their changes. -/
theorem UpdateClauses.plain_ofChanges (changes : List (Change ν β)) :
    (ofChanges changes).sets.filterMap Assignment.plain? = changes.filterMap Change.plain? := by
  rw [ofChanges, List.filterMap_filterMap]
  congr
  funext change
  cases change <;> rfl

theorem UpdateClauses.dropped_ofChanges (changes : List (Change ν β)) :
    (ofChanges changes).removes.filterMap single? = changes.filterMap Change.dropped? := by
  rw [ofChanges, List.filterMap_filterMap]
  congr
  funext change
  cases change <;> rfl

namespace UpdateTree

/-- A change inside an attribute is not one at the top, and a store that only looks there passes
over it. -/
theorem eq_none_of_mem_changes {name : String} {tree : UpdateTree} {change : Change String Json}
    (mem : change ∈ changes [.name name] tree) :
    change.plain? = none ∧ change.dropped? = none := by
  rw [changes_eq_leaves, List.mem_filterMap] at mem
  obtain ⟨⟨names, action⟩, isLeaf, isChange⟩ := mem
  obtain ⟨first, rest, rfl⟩ := List.exists_cons_of_ne_nil (names_ne_nil_of_mem_leaves isLeaf)
  cases action <;> cases isChange <;> exact ⟨rfl, rfl⟩

/-- The plain assignments of a tree are the values that it assigns at the top. -/
theorem plain_changes (tree : UpdateTree) :
    (changes [] tree).filterMap Change.plain? = tree.assigned := by
  induction tree with
  | nil => rfl
  | cons entry rest ih =>
      obtain ⟨name, action⟩ := entry
      rw [changes, List.filterMap_append, ih]
      cases action with
      | nested entries =>
          have inside : (changes [.name name] entries).filterMap Change.plain? = [] :=
            List.filterMap_eq_nil_iff.2 fun _ mem => (eq_none_of_mem_changes mem).1
          exact congrArg (· ++ assigned rest) inside
      | _ => rfl

theorem dropped_changes (tree : UpdateTree) :
    (changes [] tree).filterMap Change.dropped? = tree.removed := by
  induction tree with
  | nil => rfl
  | cons entry rest ih =>
      obtain ⟨name, action⟩ := entry
      rw [changes, List.filterMap_append, ih]
      cases action with
      | nested entries =>
          have inside : (changes [.name name] entries).filterMap Change.dropped? = [] :=
            List.filterMap_eq_nil_iff.2 fun _ mem => (eq_none_of_mem_changes mem).2
          exact congrArg (· ++ removed rest) inside
      | _ => rfl

end UpdateTree

/-! ### Assignments and removals in a store -/

namespace Store

/-- An item with attributes set one after the other. -/
def setAll (attributes : List (String × Attribute)) (item : Item) : Item :=
  attributes.foldl (fun item entry => Dict.insert entry.1 entry.2 item) item

/-- An item without some attributes. -/
def eraseAll (names : List String) (item : Item) : Item :=
  names.foldl Dict.erase item

variable {t : Table} {r : Registry} {values : Dict Attribute}

/-- An assignment whose target and value are both found inserts the value under the name. -/
theorem assign_of_get? {names : Dict String} {target value name : String} {a : Attribute}
    (named : Dict.get? names target = some name) (valued : Dict.get? values value = some a)
    (item : Item) : assign names values item (target, value) = Dict.insert name a item := by
  rw [assign, named, valued]

/-- A removal whose target is found erases the name. -/
theorem unset_of_get? {names : Dict String} {target name : String}
    (named : Dict.get? names target = some name) (item : Item) :
    unset names item target = Dict.erase item name := by
  rw [unset, named]

/-- The assignment of a value to a name sets what the marshaller makes of the value. Its
placeholders have to be in the registry of the request. -/
theorem assign_of_plain (wellFormed : r.WellFormed)
    (encoded : t.encodeEntries (r.values.map fun entry => (entry.1.text, entry.2)) = .ok values)
    {a : Assignment NameEntry ValueEntry} {n : NameEntry} {v : ValueEntry}
    (plain : a.plain? = some (n, v)) (named : n ∈ r.names) (valued : v ∈ r.values) :
    ∃ x, t.marshaller.encode v.2 = .ok x ∧ ∀ item,
      assign r.nameDict values item (PlacedPath.text (a.map Prod.fst Prod.fst).target,
        (a.map Prod.fst Prod.fst).value.opening) = Dict.insert n.2 x item := by
  obtain rfl := Assignment.plain?_eq_some_iff.1 plain
  obtain ⟨x, written, found⟩ := Table.get?_encodeEntries encoded wellFormed.nodup_valueTexts
    (List.mem_map_of_mem valued)
  refine ⟨x, written, fun item => ?_⟩
  have name : Dict.get? r.nameDict (PlacedPath.text [.name n.1]) = some n.2 :=
    wellFormed.get?_nameDict.2 ⟨n.1, (PlacedPath.text_eq_text_iff.2 rfl).symm, named⟩
  exact assign_of_get? name found item

/-- Any other assignment does nothing: its target or its value is found under no placeholder. -/
theorem assign_of_plain_eq_none (wellFormed : r.WellFormed)
    (encoded : t.encodeEntries (r.values.map fun entry => (entry.1.text, entry.2)) = .ok values)
    {a : Assignment NameEntry ValueEntry} (plain : a.plain? = none) (item : Item) :
    assign r.nameDict values item (PlacedPath.text (a.map Prod.fst Prod.fst).target,
      (a.map Prod.fst Prod.fst).value.opening) = item := by
  have notPlain : (a.map Prod.fst Prod.fst).plain? = none := by
    rw [Assignment.plain?_map, plain, Option.map_none]
  unfold assign
  split
  · next name value named valued =>
      obtain ⟨p, isName, -⟩ := wellFormed.get?_nameDict.1 named
      have key := (Table.mem_keys_encodeEntries encoded).1
        (List.mem_map_of_mem (Dict.mem_of_get? valued))
      rw [List.map_map, List.mem_map] at key
      obtain ⟨v, -, isValue⟩ := key
      have target := PlacedPath.text_eq_text_iff.1 isName.symm
      have value := AssignedValue.opening_eq_text_iff.1 isValue.symm
      rw [Assignment.plain?, target, value] at notPlain
      cases notPlain
  · rfl

/-- Assignments set what the marshaller makes of the values at the top, in the order in which they
stand. -/
theorem foldl_assign (wellFormed : r.WellFormed)
    (encoded : t.encodeEntries (r.values.map fun entry => (entry.1.text, entry.2)) = .ok values)
    {as : List (Assignment NameEntry ValueEntry)}
    (placed : ∀ a ∈ as, ∀ n v, a.plain? = some (n, v) → n ∈ r.names ∧ v ∈ r.values) :
    ∃ attributes,
      Dict.mapValuesM t.marshaller.encode
        ((as.filterMap Assignment.plain?).map (Prod.map Prod.snd Prod.snd)) = .ok attributes ∧
      ∀ item, ((as.map (Assignment.map Prod.fst Prod.fst)).map fun a =>
          (PlacedPath.text a.target, a.value.opening)).foldl (assign r.nameDict values) item =
        setAll attributes item := by
  induction as with
  | nil => exact ⟨[], rfl, fun _ => rfl⟩
  | cons a rest ih =>
      rw [List.forall_mem_cons] at placed
      obtain ⟨attributes, written, sets⟩ := ih placed.2
      cases plain : a.plain? with
      | none =>
          refine ⟨attributes, by rw [List.filterMap_cons_none plain, written], fun item => ?_⟩
          rw [List.map_cons, List.map_cons, List.foldl_cons,
            assign_of_plain_eq_none wellFormed encoded plain, sets]
      | some both =>
          obtain ⟨n, v⟩ := both
          obtain ⟨named, valued⟩ := placed.1 n v plain
          obtain ⟨x, isWritten, isSet⟩ := assign_of_plain wellFormed encoded plain named valued
          refine ⟨(n.2, x) :: attributes, ?_, fun item => ?_⟩
          · rw [List.filterMap_cons_some plain, List.map_cons, Prod.map, Dict.mapValuesM, isWritten,
              written]
            rfl
          · rw [List.map_cons, List.map_cons, List.foldl_cons, isSet, sets]
            rfl

/-- Removals erase the attributes at the top. -/
theorem foldl_unset (wellFormed : r.WellFormed) {paths : List (List (Step NameEntry))}
    (placed : ∀ path ∈ paths, ∀ n, single? path = some n → n ∈ r.names) (item : Item) :
    ((paths.map (List.map (Step.map Prod.fst))).map PlacedPath.text).foldl (unset r.nameDict) item =
      eraseAll ((paths.filterMap single?).map Prod.snd) item := by
  induction paths generalizing item with
  | nil => rfl
  | cons path rest ih =>
      rw [List.forall_mem_cons] at placed
      rw [List.map_cons, List.map_cons, List.foldl_cons, ih placed.2]
      cases isSingle : single? path with
      | some n =>
          obtain rfl := single?_eq_some_iff.1 isSingle
          have name : Dict.get? r.nameDict (PlacedPath.text [.name n.1]) = some n.2 :=
            wellFormed.get?_nameDict.2
              ⟨n.1, (PlacedPath.text_eq_text_iff.2 rfl).symm, placed.1 n isSingle⟩
          rw [List.filterMap_cons_some isSingle, List.map_cons]
          exact congrArg (eraseAll _) (unset_of_get? name item)
      -- a path of another form is written unlike every placeholder of a name
      | none =>
          rw [List.filterMap_cons_none isSingle]
          have same : unset r.nameDict item (PlacedPath.text (path.map (Step.map Prod.fst))) =
              item := by
            unfold unset
            split
            · next name named =>
                obtain ⟨p, isName, -⟩ := wellFormed.get?_nameDict.1 named
                have notSingle := single?_map (Prod.fst : NameEntry → NamePlaceholder) path
                rw [isSingle, PlacedPath.text_eq_text_iff.1 isName.symm] at notSingle
                cases notSingle
            · rfl
          rw [same]

/-- The text of a tree, with a registry that has grown since it was compiled, does to an item what
the tree says at the top. A condition that is compiled behind it lets the registry grow. -/
theorem applyUpdate_of_compile {tree : UpdateTree} {clauses : PlacedUpdate}
    {start middle : Registry}
    (compiled : tree.compile.run.run start = (.ok clauses, middle)) (grows : Grows middle r)
    (wellFormed : r.WellFormed)
    (encoded : t.encodeEntries (r.values.map fun entry => (entry.1.text, entry.2)) = .ok values) :
    ∃ attributes, Dict.mapValuesM t.marshaller.encode tree.assigned = .ok attributes ∧
      ∀ item, applyUpdate clauses.text r.nameDict values item =
        eraseAll tree.removed (setAll attributes item) := by
  have leaves : tree.leaves ≠ [] := by
    intro none
    rw [UpdateTree.run_compile_of_leaves_eq_nil none] at compiled
    cases compiled
  rw [UpdateTree.run_compile_of_leaves_ne_nil leaves] at compiled
  obtain ⟨isClauses, rfl⟩ := Prod.mk.inj compiled
  -- the placeholders of the text and what they stand for are the two sides of one list of entries
  obtain ⟨entries, draft, out, placed⟩ :=
    Change.exists_entries_placeAll (UpdateTree.changes [] tree) start
  have written : clauses = (UpdateClauses.ofChanges entries).map Prod.fst Prod.fst := by
    rw [← UpdateClauses.ofChanges_map, ← out]
    exact (Except.ok.inj isClauses).symm
  -- the registry has grown since, and still has them all
  have inNames : ∀ change ∈ entries, ∀ n ∈ change.names, n ∈ r.names := fun change mem n isName =>
    grows.names_prefix.subset (placed.mem_names n (List.mem_flatMap.2 ⟨change, mem, isName⟩))
  have inValues : ∀ change ∈ entries, ∀ v ∈ change.literals, v ∈ r.values := by
    intro change mem v isValue
    refine grows.values_prefix.subset ?_
    rw [show ((UpdateClauses.place _).run start).2.values = _ from placed.values_eq]
    exact List.mem_append_right _ (List.mem_flatMap.2 ⟨change, mem, isValue⟩)
  have plain : ∀ a ∈ (UpdateClauses.ofChanges entries).sets, ∀ n v,
      a.plain? = some (n, v) → n ∈ r.names ∧ v ∈ r.values := by
    intro a mem n v isPlain
    obtain rfl := Assignment.plain?_eq_some_iff.1 isPlain
    have isChange := UpdateClauses.mem_sets_ofChanges.1 mem
    exact ⟨inNames _ isChange n List.mem_cons_self, inValues _ isChange v List.mem_cons_self⟩
  have dropped : ∀ path ∈ (UpdateClauses.ofChanges entries).removes, ∀ n,
      single? path = some n → n ∈ r.names := by
    intro path mem n isSingle
    obtain rfl := single?_eq_some_iff.1 isSingle
    exact inNames _ (UpdateClauses.mem_removes_ofChanges.1 mem) n List.mem_cons_self
  have assigned := UpdateClauses.plain_ofChanges (UpdateTree.changes [] tree)
  have removed := UpdateClauses.dropped_ofChanges (UpdateTree.changes [] tree)
  rw [UpdateTree.plain_changes, ← draft, UpdateClauses.ofChanges_map] at assigned
  rw [UpdateTree.dropped_changes, ← draft, UpdateClauses.ofChanges_map] at removed
  obtain ⟨attributes, marshalled, sets⟩ := foldl_assign wellFormed encoded plain
  refine ⟨attributes, ?_, fun item => ?_⟩
  · rw [← assigned, ← marshalled]
    simp only [UpdateClauses.map, List.filterMap_map, List.map_filterMap, Function.comp_def,
      Assignment.plain?_map]
  · unfold applyUpdate
    rw [written, UpdateText.ofText_text]
    dsimp only [UpdateClauses.map]
    rw [sets, foldl_unset wellFormed dropped, ← removed]
    simp only [UpdateClauses.map, List.filterMap_map, List.map_filterMap, Function.comp_def,
      single?_map]

/-- What is set leaves other names as they are. -/
theorem get?_setAll_of_not_mem {attributes : List (String × Attribute)} {name : String}
    (absent : name ∉ attributes.map Prod.fst) (item : Item) :
    Dict.get? (setAll attributes item) name = Dict.get? item name := by
  induction attributes generalizing item with
  | nil => rfl
  | cons entry rest ih =>
      rw [List.map_cons, List.mem_cons, not_or] at absent
      show Dict.get? (setAll rest (Dict.insert entry.1 entry.2 item)) name = _
      rw [ih absent.2, Dict.get?_insert_of_ne absent.1]

/-- What is erased leaves other names as they are. -/
theorem get?_eraseAll_of_not_mem {names : List String} {name : String} (absent : name ∉ names)
    (item : Item) : Dict.get? (eraseAll names item) name = Dict.get? item name := by
  induction names generalizing item with
  | nil => rfl
  | cons first rest ih =>
      rw [List.mem_cons, not_or] at absent
      show Dict.get? (eraseAll rest (Dict.erase item first)) name = _
      rw [ih absent.2, Dict.get?_erase_of_ne absent.1]

end Store

/-! ### Updates of requests -/

namespace Table

variable {t : Table}

/-- The update of a request does to an item what its tree says at the top. -/
theorem applyUpdate_of_updateRequest {key : Document} {updates : UpdateTree} {options : SetOptions}
    {r : Request.UpdateItem} (made : (t.updateRequest key updates options).result = .ok r) :
    ∃ attributes, Dict.mapValuesM t.marshaller.encode updates.assigned = .ok attributes ∧
      ∀ item, Store.applyUpdate r.update r.names r.values item =
        Store.eraseAll updates.removed (Store.setAll attributes item) := by
  obtain ⟨_, -, made⟩ := Traced.exists_of_result_bind made
  obtain ⟨⟨⟨_, _⟩, names, values⟩, substituted, made⟩ := Traced.exists_of_result_bind made
  cases made
  obtain ⟨⟨_, registry⟩, expressions, substituted⟩ := Traced.exists_of_result_bind substituted
  obtain ⟨_, substitutions, substituted⟩ := Traced.exists_of_result_bind substituted
  cases substituted
  obtain ⟨values, encoded, substitutions⟩ := exists_of_except_bind substitutions
  cases substitutions
  obtain ⟨⟨_, middle⟩, update, expressions⟩ := Traced.exists_of_result_bind expressions
  obtain ⟨⟨_, _⟩, condition, expressions⟩ := Traced.exists_of_result_bind expressions
  cases expressions
  obtain ⟨⟨clauses, _⟩, compiled, update⟩ := Traced.exists_of_result_bind update
  cases update
  -- the condition of the request only adds to what the update was compiled with
  obtain ⟨_, _, emits⟩ := Expressions.makes_condition _ _ _ _ condition
  obtain ⟨_, _, emits'⟩ := updates.emits (Expressions.run_make_ok compiled)
  have wellFormed : registry.WellFormed :=
    wellFormed_empty.of_grows (emits'.placed.grows.trans emits.placed.grows)
  exact Store.applyUpdate_of_compile (Expressions.run_make_ok compiled) emits.placed.grows
    wellFormed encoded

/-- An update leaves alone what its tree does not name at the top. A key that the tree does not name
stays the key of its item. -/
theorem get?_applyUpdate_of_updateRequest {key : Document} {updates : UpdateTree}
    {options : SetOptions} {r : Request.UpdateItem}
    (made : (t.updateRequest key updates options).result = .ok r) {name : String}
    (notAssigned : name ∉ updates.assigned.map Prod.fst) (notRemoved : name ∉ updates.removed)
    (item : Item) :
    Dict.get? (Store.applyUpdate r.update r.names r.values item) name = Dict.get? item name := by
  obtain ⟨attributes, marshalled, applies⟩ := applyUpdate_of_updateRequest made
  have absent : name ∉ attributes.map Prod.fst := by
    rw [show attributes.map Prod.fst = _ from Dict.keys_mapValuesM marshalled]
    exact notAssigned
  rw [applies, Store.get?_eraseAll_of_not_mem notRemoved, Store.get?_setAll_of_not_mem absent]

end Table

end DocumentTable
