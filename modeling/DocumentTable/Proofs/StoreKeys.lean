import DocumentTable.Proofs.Dict
import DocumentTable.Proofs.StoreWrites

/-!
# Keys in a store

No two items of a store have the same key, and a key says where in the store its item is.

## Main definitions

* `Store.keyValues`: the values of the key attributes of an item
* `Store.Distinct`: no two items have the same key

## Main results

* `Store.keyValues_keyOf`: the key of an item has the key values of the item
* `Store.Distinct.apply`: no write makes two items have the same key
* `Store.Distinct.after_keyOf`: behind the key of an item come the items behind the item

## Design notes

The key values are one for each name, with absence as a value, so that they are compared like the
store compares keys. This also works when the sort key has the name of the partition key.
-/

namespace DocumentTable

namespace Store

variable {s : Store} {item other : Item} {items : List Item}

/-- The values of the key attributes of an item. -/
def keyValues (s : Store) (item : Item) : List (Option Attribute) :=
  s.keyNames.map (Dict.get? item)

/-- An item has a key when it has the values of the key, in the order of the key attributes. -/
theorem hasKey_iff {key : Item} : s.hasKey key item ↔ s.keyValues item = s.keyValues key := by
  unfold hasKey keyValues
  rw [List.all_eq_true, List.map_inj_left]
  simp only [beq_iff_eq]

/-- The key of an item has the key attributes of the item, those that are missing excepted. -/
theorem get?_keyOf (item : Item) {name : String} (mem : name ∈ s.keyNames) :
    Dict.get? (s.keyOf item) name = Dict.get? item name := by
  unfold keyOf
  rw [Dict.get?_ofList_of_forall (f := Dict.get? item)]
  · split
    · rfl
    · next absent =>
        -- a key attribute that is not in the key is not in the item
        rw [List.map_filterMap] at absent
        cases found : Dict.get? item name with
        | none => rfl
        | some a =>
            refine absurd (List.mem_filterMap.2 ⟨name, mem, ?_⟩) absent
            rw [found]
            rfl
  · intro entry made
    obtain ⟨name, -, made⟩ := List.mem_filterMap.1 made
    obtain ⟨a, found, rfl⟩ := Option.map_eq_some_iff.1 made
    exact found

/-- The key of an item has the key values of the item, so that it is found by its key. -/
theorem keyValues_keyOf (s : Store) (item : Item) :
    s.keyValues (s.keyOf item) = s.keyValues item :=
  List.map_congr_left fun _ mem => get?_keyOf item mem

/-- A key is made of its values, and of nothing else that an item may have. -/
theorem keyOf_congr (s : Store) (same : s.keyValues item = s.keyValues other) :
    s.keyOf item = s.keyOf other := by
  have each := List.map_inj_left.1 same
  refine congrArg Dict.ofList (List.filterMap_congr fun name mem => ?_)
  rw [each name mem]

theorem hasKey_keyOf : s.hasKey (s.keyOf item) other ↔ s.keyValues other = s.keyValues item := by
  rw [hasKey_iff, keyValues_keyOf]

/-- The attributes of a key are those of the item, not copies with another value. -/
theorem mem_of_mem_keyOf {entry : String × Attribute} (mem : entry ∈ s.keyOf item) :
    entry ∈ item := by
  obtain ⟨name, -, made⟩ := List.mem_filterMap.1 (Dict.mem_of_mem_ofList mem)
  obtain ⟨a, found, rfl⟩ := Option.map_eq_some_iff.1 made
  exact Dict.mem_of_get? found

theorem keyOf_pair {name name' : String} {a b : Attribute}
    (names : s.keyNames = [name, name']) (first : Dict.get? item name = some a)
    (second : Dict.get? item name' = some b) :
    s.keyOf item = Dict.ofList [(name, a), (name', b)] := by
  unfold keyOf
  simp only [names, List.filterMap_cons, List.filterMap_nil, first, second, Option.map_some]

theorem keyOf_single {name : String} {a : Attribute} (names : s.keyNames = [name])
    (found : Dict.get? item name = some a) : s.keyOf item = Dict.ofList [(name, a)] := by
  unfold keyOf
  simp only [names, List.filterMap_cons, List.filterMap_nil, found, Option.map_some]

/-! ### Items after a write -/

theorem insertInOrder_perm (s : Store) (item : Item) (items : List Item) :
    (s.insertInOrder item items).Perm (item :: items) := by
  induction items with
  | nil => exact .refl _
  | cons other rest ih =>
      rw [insertInOrder]
      split
      · exact .refl _
      · exact (ih.cons other).trans (.swap _ _ _)

/-- An item that takes the place of another one has its key values, so that no order changes. -/
theorem keyValues_replaceFirst (s : Store) (item : Item) (items : List Item) :
    (s.replaceFirst item items).map s.keyValues = items.map s.keyValues := by
  induction items with
  | nil => rfl
  | cons other rest ih =>
      rw [replaceFirst]
      split
      · next same => rw [List.map_cons, List.map_cons, ← hasKey_keyOf.1 same]
      · rw [List.map_cons, List.map_cons, ih]

theorem mem_replaceFirst {x : Item} (mem : x ∈ s.replaceFirst item items) :
    x = item ∨ x ∈ items := by
  induction items with
  | nil => cases mem
  | cons first rest ih =>
      rw [replaceFirst] at mem
      split at mem
      · exact (List.mem_cons.1 mem).imp_right (List.mem_cons_of_mem _)
      · rcases List.mem_cons.1 mem with rfl | mem
        · exact .inr List.mem_cons_self
        · exact (ih mem).imp_right (List.mem_cons_of_mem _)

/-- An item is the one that was put or was there before. Nothing else appears in a store. -/
theorem mem_upsert {x : Item} (mem : x ∈ (s.upsert item).items) : x = item ∨ x ∈ s.items := by
  unfold upsert at mem
  dsimp only at mem
  split at mem
  · exact mem_replaceFirst mem
  · exact List.mem_cons.1 ((s.insertInOrder_perm item s.items).mem_iff.1 mem)

/-- A key is there when an item has its key values. -/
theorem contains_keyOf_iff :
    s.contains (s.keyOf item) ↔ s.keyValues item ∈ s.items.map s.keyValues := by
  unfold contains lookup
  rw [List.find?_isSome, List.mem_map]
  exact exists_congr fun other => and_congr_right fun _ => hasKey_keyOf

/-! ### Different keys -/

/-- No two items have the same key. -/
def Distinct (s : Store) : Prop :=
  (s.items.map s.keyValues).Nodup

theorem distinct_empty (partitionKey : String) (sortKey : Option String) :
    (empty partitionKey sortKey).Distinct :=
  List.nodup_nil

/-- Whether keys are different is a matter of the items alone. -/
theorem distinct_ofContents : OfContents Distinct where
  receive _ _ distinct := distinct
  failure _ _ distinct := distinct
  writeCapacity _ _ distinct := distinct

/-- Putting an item makes no second one with its key: it takes the place of the one that is there.
-/
theorem Distinct.upsert (distinct : s.Distinct) (item : Item) : (s.upsert item).Distinct := by
  unfold Store.upsert
  by_cases present : s.contains (s.keyOf item)
  · rw [if_pos present]
    show ((s.replaceFirst item s.items).map s.keyValues).Nodup
    rw [keyValues_replaceFirst]
    exact distinct
  · rw [if_neg present]
    have moved := (s.insertInOrder_perm item s.items).map s.keyValues
    show ((s.insertInOrder item s.items).map s.keyValues).Nodup
    rw [moved.nodup_iff, List.map_cons, List.nodup_cons]
    exact ⟨mt contains_keyOf_iff.2 present, distinct⟩

/-- No write makes two items have the same key. An update may change the key of its item, but then
puts it like any other. -/
theorem Distinct.apply (distinct : s.Distinct) (w : Write) : (w.apply s).Distinct := by
  cases w with
  | clear => exact List.nodup_nil
  | put item => exact distinct.upsert item
  | remove key => exact distinct.sublist (List.eraseP_sublist.map _)
  | update key text names values => exact distinct.upsert _

/-- Behind the key of an item come the items behind the item. With two items of one key this would
not be one position. -/
theorem after_keyOf {before behind : List Item}
    (distinct : ((before ++ item :: behind).map s.keyValues).Nodup) :
    s.after (s.keyOf item) (before ++ item :: behind) = behind := by
  have here : s.hasKey (s.keyOf item) item := hasKey_keyOf.2 rfl
  have missed : ∀ other ∈ before, !s.hasKey (s.keyOf item) other := by
    intro other mem
    rw [List.map_append, List.nodup_append] at distinct
    rw [Bool.not_eq_true', ← Bool.not_eq_true, hasKey_keyOf]
    exact distinct.2.2 _ (List.mem_map_of_mem mem) _ List.mem_cons_self
  unfold after
  rw [if_pos, List.dropWhile_append_of_pos missed, List.dropWhile_cons_of_neg, List.drop_one,
    List.tail_cons]
  · rw [here]
    decide
  · rw [List.any_append, List.any_cons, here, Bool.true_or, Bool.or_true]

end Store

end DocumentTable
