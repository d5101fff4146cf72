import DocumentTable.Proofs.StoreMap
import DocumentTable.Proofs.Transaction
import DocumentTable.Proofs.UpdateEffect

/-!
# The key of a write

A write that a table builds is about one key. Whether it is permitted depends on the item of that
key, and it leaves the items of all other keys alone.

## Main definitions

* `Table.stored?`: what a table makes of an attribute of a document
* `UpdateTree.Spares`: an update that neither assigns nor removes some attributes
* `TransactWriteEntry.keyValues`: the key of an entry of a transaction
* `TransactWriteEntry.Local`: the entry reads and changes its key only

## Main results

* `Table.keyOf_injective`: keys of documents with the same values are the same
* `Table.nodup_keyValues`: writes about different keys have entries about different keys
* `Table.local_of_writeAlone`: the entries that a table builds are local

## Design notes

The key of a put is read off its item, and that of an update off the item that the update leaves.
The latter is the key of the request because the update spares the key attributes.
-/

namespace DocumentTable

/-! ### Keys of documents -/

namespace Table

variable {t : Table} {document : Document} {key item : Item}

/-- What a table makes of an attribute of a document. -/
def stored? (t : Table) (document : Document) (name : String) : Option Attribute :=
  (Dict.get? document name).bind fun value => (t.encode value).toOption

theorem stored?_of_keyAttribute {name : String} {entry : String × Attribute}
    (made : t.keyAttribute document name = .ok entry) :
    entry.1 = name ∧ t.stored? document name = some entry.2 := by
  unfold keyAttribute at made
  split at made
  · next value found =>
      obtain ⟨a, encoded, made⟩ := exists_of_except_bind made
      cases made
      refine ⟨rfl, ?_⟩
      rw [stored?, found, Option.bind_some, encoded]
      rfl
  · cases made

theorem stored?_of_keyAttributes {names : List String} {entries : List (String × Attribute)}
    (made : t.keyAttributes document names = .ok entries) :
    entries.map Prod.fst = names ∧
      ∀ entry ∈ entries, t.stored? document entry.1 = some entry.2 := by
  induction names generalizing entries with
  | nil =>
      cases made
      exact ⟨rfl, nofun⟩
  | cons name names ih =>
      obtain ⟨entry, first, made⟩ := exists_of_except_bind made
      obtain ⟨rest, others, made⟩ := exists_of_except_bind made
      cases made
      obtain ⟨rfl, stored⟩ := stored?_of_keyAttribute first
      obtain ⟨rfl, each⟩ := ih others
      exact ⟨rfl, List.forall_mem_cons.2 ⟨stored, each⟩⟩

/-- The key of a document has what the table makes of the key attributes. -/
theorem get?_keyOf (made : t.keyOf document = .ok key) {name : String}
    (mem : name ∈ t.definition.keyNames) :
    Dict.get? key name = t.stored? document name := by
  obtain ⟨entries, attributes, isKey⟩ := exists_of_except_bind made
  cases isKey
  obtain ⟨names, stored⟩ := stored?_of_keyAttributes attributes
  rw [Dict.get?_ofList_of_forall stored, names, if_pos mem]

/-- The attributes of a key are there, since a key without one of them is not made. -/
theorem isSome_stored?_of_keyOf (made : t.keyOf document = .ok key) {name : String}
    (mem : name ∈ t.definition.keyNames) : (t.stored? document name).isSome := by
  obtain ⟨entries, made, -⟩ := exists_of_except_bind made
  obtain ⟨names, stored⟩ := stored?_of_keyAttributes made
  rw [← names] at mem
  obtain ⟨entry, isEntry, rfl⟩ := List.mem_map.1 mem
  rw [stored entry isEntry]
  rfl

/-- An item has what the table makes of the attributes of its document. An attribute that the
document lacks is no attribute of the item either. -/
theorem get?_encodeItem (made : t.encodeItem document = .ok item) {name : String}
    (there : (t.stored? document name).isSome) :
    Dict.get? item name = t.stored? document name := by
  unfold stored? at there ⊢
  cases found : Dict.get? document name with
  | none =>
      rw [found] at there
      cases there
  | some value =>
      obtain ⟨a, encoded, isStored⟩ := Dict.get?_mapValuesM (except_mapError_ok_iff.1 made) found
      rw [isStored, Option.bind_some, encode, encoded]
      rfl

/-- An item has the key of its document, whatever else it has. -/
theorem valuesOf_encodeItem (keyed : t.keyOf document = .ok key)
    (made : t.encodeItem document = .ok item) :
    item.valuesOf t.definition.keyNames = key.valuesOf t.definition.keyNames := by
  refine List.map_congr_left fun name mem => ?_
  rw [get?_keyOf keyed mem, get?_encodeItem made (isSome_stored?_of_keyOf keyed mem)]

/-- The key of a document is its own key, so that it may be sent in the place of the item. -/
theorem keyOf_keyOf {s : Store} (names : s.keyNames = t.definition.keyNames)
    (made : t.keyOf document = .ok key) : s.keyOf key = key := by
  obtain ⟨entries, attributes, isKey⟩ := exists_of_except_bind made
  cases isKey
  obtain ⟨isNames, stored⟩ := stored?_of_keyAttributes attributes
  have each : ∀ entry ∈ entries, ((Dict.get? (Dict.ofList entries) entry.1).map fun a =>
      (entry.1, a)) = some entry := by
    intro entry mem
    have isKey : entry.1 ∈ t.definition.keyNames := isNames ▸ List.mem_map_of_mem mem
    rw [get?_keyOf made isKey, stored entry mem]
    rfl
  unfold Store.keyOf
  rw [names, ← isNames, List.filterMap_map]
  exact congrArg Dict.ofList ((List.filterMap_congr each).trans List.filterMap_some)

/-- Keys of documents with the same values are the same. Different keys are therefore different
places in the store. -/
theorem keyOf_injective {document' : Document} {key' : Item} (made : t.keyOf document = .ok key)
    (made' : t.keyOf document' = .ok key')
    (same : key.valuesOf t.definition.keyNames = key'.valuesOf t.definition.keyNames) :
    key = key' := by
  let s : Store := .empty t.definition.partitionKey t.definition.sortKey
  rw [← keyOf_keyOf (s := s) rfl made, ← keyOf_keyOf (s := s) rfl made']
  exact s.keyOf_congr same

end Table

/-! ### Entries of a transaction -/

namespace Store

/-- Whether a key is there depends on the item of the key, and not on its neighbours. -/
theorem contains_eq (s : Store) (key : Item) :
    s.contains key = (s.contents (key.valuesOf s.keyNames)).isSome :=
  congrArg Option.isSome (s.lookup_eq key)

theorem contains_keyOf (s : Store) (item : Item) : s.contains (s.keyOf item) = s.contains item := by
  unfold contains
  rw [lookup_eq, lookup_eq, keyValues_keyOf]

end Store

/-- An update neither assigns nor removes some attributes. -/
def UpdateTree.Spares (names : List String) (tree : UpdateTree) : Prop :=
  ∀ name ∈ names, name ∉ tree.assigned.map Prod.fst ∧ name ∉ tree.removed

instance (names : List String) (tree : UpdateTree) : Decidable (tree.Spares names) :=
  inferInstanceAs
    (Decidable (∀ name ∈ names, name ∉ tree.assigned.map Prod.fst ∧ name ∉ tree.removed))

namespace TransactWriteEntry

/-- The values of the key that an entry is about. -/
def keyValues (names : List String) (entry : TransactWriteEntry) : List (Option Attribute) :=
  match entry.delete, entry.put, entry.update with
  | some delete, _, _ => delete.key.valuesOf names
  | none, some put, _ => put.item.valuesOf names
  | none, none, some update => update.key.valuesOf names
  | none, none, none => []

/-- Whether an entry is permitted depends on the item of its key, and the entry changes the item of
no other key. -/
structure Local (names : List String) (entry : TransactWriteEntry) : Prop where
  permits_eq {s s' : Store} : s.keyNames = names → s'.keyNames = names →
    s.contents (entry.keyValues names) = s'.contents (entry.keyValues names) →
    s.permits entry = s'.permits entry
  contents_transact {s : Store} : s.keyNames = names → s.Distinct →
    ∀ key ≠ entry.keyValues names, (s.transact entry).contents key = s.contents key

variable {names : List String}

theorem local_ofDelete (r : Request.DeleteItem) : (ofDelete r).Local names where
  permits_eq := by
    rintro s s' rfl names same
    show Store.holds (s.contains r.key) r.condition = Store.holds (s'.contains r.key) r.condition
    rw [s.contains_eq, s'.contains_eq, names]
    exact congrArg (fun found => Store.holds (Option.isSome found) r.condition) same
  contents_transact := by
    rintro s rfl distinct key differs
    have removed : (s.remove r.key).contents =
        Function.update s.contents (s.keyValues r.key) none :=
      Store.contentsOf_eraseP r.key distinct
    exact (congrFun removed key).trans (Function.update_of_ne differs _ _)

theorem local_ofPut (r : Request.PutItem) : (ofPut r).Local names where
  permits_eq := by
    rintro s s' rfl names same
    show Store.holds (s.contains (s.keyOf r.item)) r.condition =
      Store.holds (s'.contains (s'.keyOf r.item)) r.condition
    rw [s.contains_keyOf, s'.contains_keyOf, s.contains_eq, s'.contains_eq, names]
    exact congrArg (fun found => Store.holds (Option.isSome found) r.condition) same
  contents_transact := by
    rintro s rfl - key differs
    exact (congrFun (s.contents_upsert r.item) key).trans (Function.update_of_ne differs _ _)

theorem local_ofUpdate {r : Request.UpdateItem}
    (spares : ∀ name ∈ names, ∀ item,
      Dict.get? (Store.applyUpdate r.update r.names r.values item) name = Dict.get? item name) :
    (ofUpdate r).Local names where
  permits_eq := by
    rintro s s' rfl names same
    show Store.holds (s.contains r.key) r.condition = Store.holds (s'.contains r.key) r.condition
    rw [s.contains_eq, s'.contains_eq, names]
    exact congrArg (fun found => Store.holds (Option.isSome found) r.condition) same
  contents_transact := by
    rintro s rfl - key differs
    have same : s.keyValues (s.updated r.key r.update r.names r.values) = s.keyValues r.key := by
      refine (List.map_congr_left fun name mem => spares name mem _).trans ?_
      cases found : s.lookup r.key with
      | none => rfl
      | some item => exact Store.hasKey_iff.1 (List.find?_some found)
    refine (congrFun (s.contents_upsert _) key).trans ?_
    rw [same]
    exact Function.update_of_ne differs _ _

end TransactWriteEntry

/-! ### Entries that a table builds -/

namespace SingleWrite

/-- The document that a write is about: an item to put, or a key. -/
def document : SingleWrite → Document
  | delete entry => entry.item
  | put entry => entry.item
  | update entry => entry.key

/-- A write does not change some attributes of the item that it is about. -/
def Spares (names : List String) : SingleWrite → Prop
  | delete _ => True
  | put _ => True
  | update entry => entry.updates.Spares names

instance (names : List String) : (write : SingleWrite) → Decidable (write.Spares names)
  | delete _ => .isTrue trivial
  | put _ => .isTrue trivial
  | update entry => inferInstanceAs (Decidable (entry.updates.Spares names))

end SingleWrite

namespace Table

variable {t : Table} {write : SingleWrite} {entry : TransactWriteEntry}
  {returned : Option ReturnValue} {key : Item}

/-- An entry is about the key of its document, of whichever kind it is. -/
theorem keyValues_of_writeAlone (built : (t.writeAlone returned write).result = .ok entry)
    (keyed : t.keyOf write.document = .ok key) :
    entry.keyValues t.definition.keyNames = key.valuesOf t.definition.keyNames := by
  cases write with
  | delete w =>
      obtain ⟨r, made, isEntry⟩ := Traced.exists_of_result_bind built
      cases isEntry
      obtain ⟨key', keyed', made⟩ := Traced.exists_of_result_bind made
      obtain ⟨⟨_, _, _⟩, -, made⟩ := Traced.exists_of_result_bind made
      cases made
      cases keyed.symm.trans keyed'
      rfl
  | put w =>
      obtain ⟨r, made, isEntry⟩ := Traced.exists_of_result_bind built
      cases isEntry
      obtain ⟨⟨_, _, _⟩, -, made⟩ := Traced.exists_of_result_bind made
      obtain ⟨item, encoded, made⟩ := Traced.exists_of_result_bind made
      cases made
      exact valuesOf_encodeItem keyed encoded
  | update w =>
      obtain ⟨r, made, isEntry⟩ := Traced.exists_of_result_bind built
      cases isEntry
      obtain ⟨key', keyed', made⟩ := Traced.exists_of_result_bind made
      obtain ⟨⟨⟨_, _⟩, _, _⟩, -, made⟩ := Traced.exists_of_result_bind made
      cases made
      cases keyed.symm.trans keyed'
      rfl

/-- The keys of entries are different when those of their documents are. -/
theorem nodup_keyValues {writes : List SingleWrite} {entries : List TransactWriteEntry}
    {keys : List Item} (built : writes.mapM (fun write => (t.writeAlone returned write).result) =
      .ok entries)
    (keyed : writes.mapM (fun write => t.keyOf write.document) = .ok keys) (differ : keys.Nodup) :
    (entries.map (·.keyValues t.definition.keyNames)).Nodup := by
  have same : entries.map (·.keyValues t.definition.keyNames) =
      keys.map (Item.valuesOf t.definition.keyNames) := by
    clear differ
    induction writes generalizing entries keys with
    | nil =>
        cases built
        cases keyed
        rfl
    | cons write writes ih =>
        rw [List.mapM_cons] at built keyed
        obtain ⟨entry, first, built⟩ := exists_of_except_bind built
        obtain ⟨entries, others, built⟩ := exists_of_except_bind built
        obtain ⟨key, first', keyed⟩ := exists_of_except_bind keyed
        obtain ⟨keys, others', keyed⟩ := exists_of_except_bind keyed
        cases built
        cases keyed
        rw [List.map_cons, List.map_cons, keyValues_of_writeAlone first first', ih others others']
  rw [same]
  refine differ.map_on fun key mem key' mem' equal => ?_
  obtain ⟨_, -, made⟩ := exists_of_mem_except_mapM keyed mem
  obtain ⟨_, -, made'⟩ := exists_of_mem_except_mapM keyed mem'
  exact keyOf_injective made made' equal

/-- The entries that a table builds are local: what they do and ask is a matter of their key.
Updates that name a key attribute are excluded, as they put an item elsewhere. -/
theorem local_of_writeAlone (built : (t.writeAlone returned write).result = .ok entry)
    (spares : write.Spares t.definition.keyNames) : entry.Local t.definition.keyNames := by
  cases write with
  | delete w =>
      obtain ⟨r, -, isEntry⟩ := Traced.exists_of_result_bind built
      cases isEntry
      exact TransactWriteEntry.local_ofDelete r
  | put w =>
      obtain ⟨r, -, isEntry⟩ := Traced.exists_of_result_bind built
      cases isEntry
      exact TransactWriteEntry.local_ofPut r
  | update w =>
      obtain ⟨r, made, isEntry⟩ := Traced.exists_of_result_bind built
      cases isEntry
      refine TransactWriteEntry.local_ofUpdate fun name mem item => ?_
      obtain ⟨notAssigned, notRemoved⟩ := spares name mem
      exact get?_applyUpdate_of_updateRequest made notAssigned notRemoved item

end Table

end DocumentTable
