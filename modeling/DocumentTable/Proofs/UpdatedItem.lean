import DocumentTable.Proofs.StoreMap
import DocumentTable.Proofs.Targets
import DocumentTable.Proofs.UpdateEffect

/-!
# The item after an update

The store reads an update back from its text. It makes of an item what the tree says that the text
was compiled from: each attribute that the tree names at the top is set, removed or left alone, and
no other attribute changes.

## Main definitions

* `UpdateAction.Makes`: what an action makes of an attribute of an item
* `UpdateTree.Makes`: what a tree makes of an item

## Main results

* `Store.makes_of_compile`: the store makes of an item what the tree says
* `Store.exists_of_updateRequest`: an update that is sent to the store leaves that item there
* `UpdateTree.Built.makes_updated_item`: both, for every tree that can be made

## Design notes

A tree that can be made has each name once, so that one action speaks for an attribute. Assignments
are followed by removals, which is the reason why the order of the actions does not matter.
-/

namespace DocumentTable

open Registry

/-- What an action makes of an attribute, which may be absent before and after. -/
def UpdateAction.Makes (m : Marshaller) (old new : Option Attribute) : UpdateAction → Prop
  | .assign value => ∃ a, m.encode value = .ok a ∧ new = some a
  | .remove => new = none
  | .nested _ | .fallback _ | .arithmetic _ => new = old

/-- What a tree makes of an item. -/
structure UpdateTree.Makes (m : Marshaller) (tree : UpdateTree) (old new : Item) : Prop where
  /-- An attribute that the tree names is what its action makes of it. -/
  named : ∀ name action, (name, action) ∈ tree →
    action.Makes m (Dict.get? old name) (Dict.get? new name)
  /-- All other attributes are as they were. -/
  others : ∀ name, name ∉ tree.map Prod.fst → Dict.get? new name = Dict.get? old name
  /-- The attributes stay in the order of their names. -/
  sorted : Dict.Sorted old → Dict.Sorted new

/-! ### One action for each name -/

namespace UpdateTree

variable {tree : UpdateTree} {name : String} {action action' : UpdateAction}

theorem mem_assigned {value : Json} :
    (name, value) ∈ tree.assigned ↔ (name, .assign value) ∈ tree := by
  rw [assigned, List.mem_filterMap]
  constructor
  · rintro ⟨⟨n, action⟩, mem, isAssigned⟩
    cases action <;> cases isAssigned
    exact mem
  · exact fun mem => ⟨_, mem, rfl⟩

theorem mem_removed : name ∈ tree.removed ↔ (name, .remove) ∈ tree := by
  rw [removed, List.mem_filterMap]
  constructor
  · rintro ⟨⟨n, action⟩, mem, isRemoved⟩
    cases action <;> cases isRemoved
    exact mem
  · exact fun mem => ⟨_, mem, rfl⟩

theorem Distinct.nodup_names (h : tree.Distinct) : (tree.map Prod.fst).Nodup := by
  induction tree with
  | nil => exact .nil
  | cons entry rest ih => exact List.nodup_cons.2 ⟨h.1, ih h.2.2⟩

/-- A tree that has each name once has one action for it, so that what it says of a name is one
thing. -/
theorem Distinct.action_unique (h : tree.Distinct) (mem : (name, action) ∈ tree)
    (mem' : (name, action') ∈ tree) : action = action' :=
  congrArg Prod.snd (List.inj_on_of_nodup_map h.nodup_names mem mem' rfl)

theorem assigned_names_sublist (tree : UpdateTree) :
    (tree.assigned.map Prod.fst).Sublist (tree.map Prod.fst) := by
  induction tree with
  | nil => exact .slnil
  | cons entry rest ih =>
      obtain ⟨name, action⟩ := entry
      cases action with
      | assign value => exact ih.cons_cons name
      | _ => exact ih.cons name

end UpdateTree

/-! ### Attributes set and erased -/

namespace Store

/-- A name that is set once has the value it was set to. -/
theorem get?_setAll {attributes : List (String × Attribute)} {name : String} {a : Attribute}
    (distinct : (attributes.map Prod.fst).Nodup) (mem : (name, a) ∈ attributes) (item : Item) :
    Dict.get? (setAll attributes item) name = some a := by
  induction attributes generalizing item with
  | nil => cases mem
  | cons entry rest ih =>
      rw [List.map_cons, List.nodup_cons] at distinct
      show Dict.get? (setAll rest (Dict.insert entry.1 entry.2 item)) name = _
      rcases List.mem_cons.1 mem with rfl | mem
      · rw [get?_setAll_of_not_mem distinct.1, Dict.get?_insert_self]
      · exact ih distinct.2 mem _

theorem get?_eraseAll {names : List String} {name : String} (mem : name ∈ names) (item : Item) :
    Dict.get? (eraseAll names item) name = none := by
  induction names generalizing item with
  | nil => cases mem
  | cons first rest ih =>
      show Dict.get? (eraseAll rest (Dict.erase item first)) name = _
      by_cases later : name ∈ rest
      · exact ih later _
      · obtain rfl := (List.mem_cons.1 mem).resolve_right later
        rw [get?_eraseAll_of_not_mem later, Dict.get?_erase_self]

theorem sorted_setAll {item : Item} (sorted : Dict.Sorted item)
    (attributes : List (String × Attribute)) : Dict.Sorted (setAll attributes item) := by
  induction attributes generalizing item with
  | nil => exact sorted
  | cons entry rest ih => exact ih (sorted.insert entry.1 entry.2)

theorem sorted_eraseAll {item : Item} (sorted : Dict.Sorted item) (names : List String) :
    Dict.Sorted (eraseAll names item) := by
  induction names generalizing item with
  | nil => exact sorted
  | cons name rest ih => exact ih (sorted.filter _)

variable {t : Table} {tree : UpdateTree}

/-- What is assigned and then removed at the top is what the tree makes of an item. No name is both,
since it has one action. -/
theorem makes_eraseAll_setAll (distinct : tree.Distinct) {m : Marshaller}
    {attributes : Dict Attribute}
    (marshalled : Dict.mapValuesM m.encode tree.assigned = .ok attributes) (item : Item) :
    tree.Makes m item (eraseAll tree.removed (setAll attributes item)) where
  named name action mem := by
    have keys : attributes.map Prod.fst = tree.assigned.map Prod.fst :=
      Dict.keys_mapValuesM marshalled
    have once : (tree.assigned.map Prod.fst).Nodup :=
      distinct.nodup_names.sublist tree.assigned_names_sublist
    -- a name has one action, so that what is done for other actions does not touch it
    have kept : action ≠ .remove → ∀ old : Item,
        Dict.get? (eraseAll tree.removed old) name = Dict.get? old name := by
      refine fun notRemove old => get?_eraseAll_of_not_mem (fun removed => notRemove ?_) old
      exact distinct.action_unique mem (UpdateTree.mem_removed.1 removed)
    have unset : (∀ value, action ≠ .assign value) →
        Dict.get? (setAll attributes item) name = Dict.get? item name := by
      intro notAssign
      refine get?_setAll_of_not_mem (fun isAssigned => ?_) item
      rw [keys] at isAssigned
      obtain ⟨⟨n, value⟩, isEntry, rfl⟩ := List.mem_map.1 isAssigned
      exact notAssign value (distinct.action_unique mem (UpdateTree.mem_assigned.1 isEntry))
    cases action with
    | assign value =>
        have found : Dict.get? tree.assigned name = some value :=
          (Dict.get?_eq_some_iff once).2 (UpdateTree.mem_assigned.2 mem)
        obtain ⟨a, written, isSet⟩ := Dict.get?_mapValuesM marshalled found
        refine ⟨a, written, ?_⟩
        rw [kept nofun, get?_setAll (keys ▸ once) (Dict.mem_of_get? isSet)]
    | remove => exact get?_eraseAll (UpdateTree.mem_removed.2 mem) _
    | nested _ => exact (kept nofun _).trans (unset nofun)
    | fallback _ => exact (kept nofun _).trans (unset nofun)
    | arithmetic _ => exact (kept nofun _).trans (unset nofun)
  others name absent := by
    have notRemoved : name ∉ tree.removed :=
      fun mem => absent (List.mem_map_of_mem (UpdateTree.mem_removed.1 mem))
    have notAssigned : name ∉ attributes.map Prod.fst := by
      rw [show attributes.map Prod.fst = _ from Dict.keys_mapValuesM marshalled]
      exact fun mem => absent (tree.assigned_names_sublist.subset mem)
    rw [get?_eraseAll_of_not_mem notRemoved, get?_setAll_of_not_mem notAssigned]
  sorted sorted := sorted_eraseAll (sorted_setAll sorted attributes) tree.removed

/-- Whatever else was compiled with the registry of an update, before it or behind it, the store
makes of an item what the tree says. Placeholders that others were given are not touched by its
text. -/
theorem makes_of_compile (distinct : tree.Distinct) {before behind : List RegistryStep}
    {clauses : PlacedUpdate} {middle : Registry} {names : Dict String} {values : Dict Attribute}
    (compiled : tree.compile.run.run (Registry.after before) = (.ok clauses, middle))
    (substituted : t.substitutions (Registry.after (before ++ .update tree :: behind)) =
      .ok ⟨names, values⟩) (item : Item) :
    tree.Makes t.marshaller item (applyUpdate clauses.text names values item) := by
  have grows : Grows middle (Registry.after (before ++ .update tree :: behind)) := by
    have grows := grows_after_append (before ++ [.update tree]) behind
    rw [← List.append_cons, after_concat, afterStep, RegistryStep.text,
      run_bind_ok compiled] at grows
    exact grows
  obtain ⟨values, encoded, substituted⟩ := exists_of_except_bind substituted
  cases substituted
  obtain ⟨attributes, marshalled, applies⟩ :=
    applyUpdate_of_compile compiled grows (wellFormed_after _) encoded
  rw [applies]
  exact makes_eraseAll_setAll distinct marshalled item

/-! ### Updates that are sent -/

/-- The items of a store after a request are those after the operation, also when it fails. -/
theorem contents_after_send {s : Store} (calm : s.failure = none) (op : Operation)
    (r : op.Request) :
    ((client.send op r).after s).contents =
      match (s.receive ⟨op, r⟩).handle op r with
      | .ok (_, s') => s'.contents
      | .error _ => s.contents := by
  unfold client Exchange.after Exchange.run
  dsimp only
  rw [show (s.receive ⟨op, r⟩).failure = none from calm]
  dsimp only
  cases (s.receive ⟨op, r⟩).handle op r <;> rfl

/-- An update that a table builds leaves in a store the item that its tree makes of the one that was
there, or of the bare key. The condition of the request has to hold for this. -/
theorem exists_of_updateRequest (distinct : tree.Distinct) {key : Document} {options : SetOptions}
    {r : Request.UpdateItem} (made : (t.updateRequest key tree options).result = .ok r)
    {s : Store} (calm : s.failure = none) (permitted : holds (s.lookup r.key).isSome r.condition) :
    ∃ response item, (client.send .updateItem r).result s = .ok response ∧
      tree.Makes t.marshaller ((s.lookup r.key).getD r.key) item ∧
      ((client.send .updateItem r).after s).contents =
        Function.update s.contents (s.keyValues item) (some item) := by
  obtain ⟨attributes, marshalled, applies⟩ := Table.applyUpdate_of_updateRequest made
  obtain ⟨response, handled⟩ : ∃ response, (s.receive ⟨.updateItem, r⟩).handle .updateItem r =
      .ok (response, (s.receive ⟨.updateItem, r⟩).upsert
        (s.updated r.key r.update r.names r.values)) :=
    ⟨_, if_pos permitted⟩
  refine ⟨response, s.updated r.key r.update r.names r.values, ?_, ?_, ?_⟩
  · rw [result_send calm, handled]
    rfl
  · rw [updated, applies]
    exact makes_eraseAll_setAll distinct marshalled _
  · rw [contents_after_send calm, handled]
    exact contents_upsert _ _

/-- An update whose condition does not hold is refused and changes no item, not even by making a new
one. -/
theorem result_of_not_permitted {r : Request.UpdateItem} {s : Store} (calm : s.failure = none)
    (refused : ¬holds (s.lookup r.key).isSome r.condition) :
    (client.send .updateItem r).result s = .error conditionFailed ∧
      ((client.send .updateItem r).after s).contents = s.contents := by
  have handled : (s.receive ⟨.updateItem, r⟩).handle .updateItem r = .error conditionFailed :=
    if_neg refused
  constructor
  · rw [result_send calm, handled]
    rfl
  · rw [contents_after_send calm, handled]

end Store

namespace UpdateTree

/-- The store makes of every item what a tree says that can be made, from the text of the tree and
from what the placeholders of its registry stand for, whatever shares the registry. An update that a
table builds therefore leaves that item in a store, starting from the item of the key or from the
bare key, or it is refused for its condition and changes nothing. The tree may be any that can be
made, and no failure is prepared in the store. -/
theorem Built.makes_updated_item {tree : UpdateTree} (built : tree.Built) (t : Table) :
    (∀ (before behind : List RegistryStep) (clauses : PlacedUpdate) (middle : Registry)
        (names : Dict String) (values : Dict Attribute),
      tree.compile.run.run (after before) = (.ok clauses, middle) →
      t.substitutions (after (before ++ .update tree :: behind)) = .ok ⟨names, values⟩ →
      ∀ item, tree.Makes t.marshaller item (Store.applyUpdate clauses.text names values item)) ∧
    ∀ (key : Document) (options : SetOptions) (r : Request.UpdateItem),
      (t.updateRequest key tree options).result = .ok r →
      ∀ s : Store, s.failure = none →
        if Store.holds (s.lookup r.key).isSome r.condition then
          ∃ response item, (Store.client.send .updateItem r).result s = .ok response ∧
            tree.Makes t.marshaller ((s.lookup r.key).getD r.key) item ∧
            ((Store.client.send .updateItem r).after s).contents =
              Function.update s.contents (s.keyValues item) (some item)
        else
          (Store.client.send .updateItem r).result s = .error Store.conditionFailed ∧
            ((Store.client.send .updateItem r).after s).contents = s.contents := by
  constructor
  · intro before behind clauses middle names values compiled substituted
    exact Store.makes_of_compile built.distinct compiled substituted
  · intro key options r made s calm
    split
    · next permitted => exact Store.exists_of_updateRequest built.distinct made calm permitted
    · next refused => exact Store.result_of_not_permitted calm refused

/-- An update with every kind of action, of an item that is not there yet. -/
theorem Built.makes_updated_item_bare_key :
    let tree : UpdateTree := [("name", .assign (.string "Ann")),
      ("alias", .fallback ⟨.ofName "name", .string "A."⟩),
      ("visits", .arithmetic ⟨.path (.ofName "visits"), .plus, .value (.bool true)⟩),
      ("home", .nested [("name", .assign (.string "Rome"))]), ("note", .remove)]
    let t : Table := ⟨.new "users" "id", .json, {}⟩
    let options : SetOptions := { condition := some (.field "id" (.test .absent)) }
    let s : Store := .empty "id" none
    tree.Built ∧
    (∃ clauses middle names values,
      tree.compile.run.run (after [.value .null]) = (.ok clauses, middle) ∧
      t.substitutions (after [.value .null, .update tree]) = .ok ⟨names, values⟩ ∧
      ∀ item, tree.Makes t.marshaller item (Store.applyUpdate clauses.text names values item)) ∧
    ∃ (r : Request.UpdateItem) (response : Response.UpdateItem) (item : Item),
      (t.updateRequest [("id", .string "ann")] tree options).result = .ok r ∧
      (r.key, r.update, r.condition) = ([("id", .string "ann")],
        "SET #attr0 = :val1, #attr2 = if_not_exists(#attr0, :val3), " ++
          "#attr4 = #attr4 + :val5, #attr6.#attr0 = :val7 REMOVE #attr8",
        some "attribute_not_exists (#attr9)") ∧
      (Store.client.send .updateItem r).result s = .ok response ∧
      tree.Makes t.marshaller r.key item ∧
      ((Store.client.send .updateItem r).after s).contents =
        Function.update s.contents (s.keyValues item) (some item) := by
  intro tree t options s
  have built : tree.Built := by
    show Built (UpdateTree.ofList tree)
    refine .ofList fun name inner mem => ?_
    simp only [tree, List.mem_cons, Prod.mk.injEq, reduceCtorEq, and_false, false_or,
      UpdateAction.nested.injEq, List.not_mem_nil, or_false] at mem
    rw [mem.2]
    exact .set "name" .new nofun
  obtain ⟨r, made, texts⟩ := exists_of_except_map (show
    (t.updateRequest [("id", .string "ann")] tree options).result.map
      (fun r => (r.key, r.update, r.condition)) = .ok ([("id", .string "ann")],
        "SET #attr0 = :val1, #attr2 = if_not_exists(#attr0, :val3), " ++
          "#attr4 = #attr4 + :val5, #attr6.#attr0 = :val7 REMOVE #attr8",
        some "attribute_not_exists (#attr9)") by decide +kernel)
  obtain ⟨⟨names, values⟩, substituted, -⟩ := exists_of_except_map (show
    (t.substitutions (after [.value .null, .update tree])).map (fun s => Dict.keys s.values) =
      .ok [":val0", ":val2", ":val4", ":val6", ":val8"] by decide +kernel)
  have leaves : tree.leaves ≠ [] := by decide
  have compiled := run_compile_of_leaves_ne_nil leaves (after [.value .null])
  have stored := (built.makes_updated_item t).2 _ _ _ made s rfl
  have permitted : Store.holds (s.lookup r.key).isSome r.condition = true := by
    rw [show r.condition = some "attribute_not_exists (#attr9)" from
      congrArg (fun x => x.2.2) texts]
    show Store.holds false _ = true
    decide
  rw [if_pos permitted] at stored
  obtain ⟨response, item, answered, makes, contents⟩ := stored
  exact ⟨built, ⟨_, _, names, values, compiled, substituted,
    (built.makes_updated_item t).1 _ [] _ _ _ _ compiled substituted⟩, r, response, item, made,
    texts, answered, makes, contents⟩

end UpdateTree

end DocumentTable
