import DocumentTable.Proofs.Resume
import DocumentTable.Proofs.StoreRuns
import Mathlib.Logic.Function.Basic

/-!
# A store as a map

The list of items of a store stands for a map from keys to items. Each operation is said here as
what it does to the map, without a word on the order of items or on the place where one is found.

## Main definitions

* `ItemMap`: items by the values of their key attributes
* `Store.contents`: the map that a store stands for
* `ItemMap.Change`: a change of a map: of all keys, or of one
* `ItemMap.changesAlong`: the changes that writes come to, one after the other
* `WriteEntry.Asks`, `TransactWriteEntry.Asks`: the write of an entry with one of its alternatives
* `ItemMap.Answers`: what an operation returns for a map, and the map after it

## Main results

* `Store.contents_apply`: a write of a store is a change of its map
* `Store.answers_handle`: the operations of a store are those of its map
* `Store.run_answers_and_reads_last_change`: they are along any run, where a get reads what the last
  change at its key has left

## Design notes

The values of a key are a list with one entry for each key attribute, absence being a value.

An update reads the map, so that which key it changes depends on the changes before it. This is why
the changes of a run are computed along the run.
-/

namespace DocumentTable

/-- Items by the values of their key attributes. -/
abbrev ItemMap : Type :=
  List (Option Attribute) → Option Item

/-- The values of the attributes of some names. -/
def Item.valuesOf (names : List String) (item : Item) : List (Option Attribute) :=
  names.map (Dict.get? item)

namespace ItemMap

variable {names : List String}

/-- A change of a map. -/
inductive Change where
  | clear
  | set (item : Item)
  | unset (key : List (Option Attribute))

/-- A map after a change. -/
def Change.apply (names : List String) (m : ItemMap) : Change → ItemMap
  | clear => fun _ => none
  | set item => Function.update m (item.valuesOf names) (some item)
  | unset key => Function.update m key none

/-- What a change leaves at a key; nothing is said when it leaves the key alone. -/
def Change.at (names : List String) (key : List (Option Attribute)) :
    Change → Option (Option Item)
  | clear => some none
  | set item => if item.valuesOf names = key then some (some item) else none
  | unset key' => if key' = key then some none else none

/-- The item of a key after an update; a missing item starts as its key. -/
def updated (names : List String) (m : ItemMap) (key : Item) (update : String)
    (placeholders : Dict String) (values : Dict Attribute) : Item :=
  Store.applyUpdate update placeholders values ((m (key.valuesOf names)).getD key)

/-- The change that a write comes to. -/
def change (names : List String) (m : ItemMap) : Store.Write → Change
  | .clear => .clear
  | .put item => .set item
  | .remove key => .unset (key.valuesOf names)
  | .update key update placeholders values => .set (m.updated names key update placeholders values)

/-- A map after a write. -/
def write (names : List String) (m : ItemMap) (w : Store.Write) : ItemMap :=
  (m.change names w).apply names m

/-- The changes that writes come to, one after the other. -/
def changesAlong (names : List String) (m : ItemMap) : List Store.Write → List Change
  | [] => []
  | w :: rest => m.change names w :: changesAlong names (m.write names w) rest

theorem update_eq_getD (m : ItemMap) (key key' : List (Option Attribute)) (found : Option Item) :
    Function.update m key' found key = (if key' = key then some found else none).getD (m key) := by
  rw [Function.update_apply]
  by_cases same : key' = key
  · rw [if_pos same, if_pos same.symm, Option.getD_some]
  · rw [if_neg same, if_neg (Ne.symm same), Option.getD_none]

/-- A change leaves at a key what it says about the key, and elsewhere what was there. -/
theorem Change.apply_eq (m : ItemMap) (c : Change) (key : List (Option Attribute)) :
    c.apply names m key = (c.at names key).getD (m key) := by
  cases c with
  | clear => rfl
  | set item => exact m.update_eq_getD key (item.valuesOf names) (some item)
  | unset key' => exact m.update_eq_getD key key' none

/-- After writes a key has what the last change at the key has left, or what it had before if there
is none. -/
theorem foldl_write (writes : List Store.Write) (m : ItemMap) (key : List (Option Attribute)) :
    writes.foldl (write names) m key =
      ((changesAlong names m writes).reverse.findSome? (Change.at names key)).getD (m key) := by
  induction writes generalizing m with
  | nil => rfl
  | cons w rest ih =>
      rw [List.foldl_cons, ih, changesAlong, List.reverse_cons, List.findSome?_append,
        List.findSome?_singleton, write, Change.apply_eq, Option.getD_or]

end ItemMap

/-! ### Operations on a map -/

/-- The writes of an entry of a batch that has one of its alternatives. -/
inductive WriteEntry.Asks : WriteEntry → List Store.Write → Prop
  | put (entry : PutEntry) : Asks { put := some entry } [.put entry.item]
  | delete (entry : DeleteEntry) : Asks { delete := some entry } [.remove entry.key]

/-- The writes of an entry of a transaction that has one of its alternatives. -/
inductive TransactWriteEntry.Asks : TransactWriteEntry → List Store.Write → Prop
  | check (entry : TransactCheck) : Asks { check := some entry } []
  | put (entry : TransactPut) : Asks { put := some entry } [.put entry.item]
  | delete (entry : TransactDelete) : Asks { delete := some entry } [.remove entry.key]
  | update (entry : TransactUpdate) : Asks { update := some entry }
      [.update entry.key entry.update entry.names entry.values]

namespace ItemMap

/-- What an operation returns for a map, and the map after it. -/
def Answers (names : List String) (m : ItemMap) :
    (op : Operation) → op.Request → op.Response → ItemMap → Prop
  | .createTable, _, _, m' => m' = m
  | .deleteTable, _, _, m' => m' = fun _ => none
  | .putItem, r, _, m' => m' = Function.update m (r.item.valuesOf names) (some r.item)
  | .getItem, r, response, m' => response.item = m (r.key.valuesOf names) ∧ m' = m
  | .updateItem, r, _, m' =>
    let item := m.updated names r.key r.update r.names r.values
    m' = Function.update m (item.valuesOf names) (some item)
  | .deleteItem, r, _, m' => m' = Function.update m (r.key.valuesOf names) none
  | .query, _, response, m' =>
    (∀ item ∈ response.items, m (item.valuesOf names) = some item) ∧ m' = m
  | .scan, _, response, m' =>
    (∀ item ∈ response.items, m (item.valuesOf names) = some item) ∧ m' = m
  | .batchGetItem, r, response, m' =>
    (∀ table read, r.tables = [(table, read)] →
      response.found = [(table, read.keys.filterMap fun key => m (key.valuesOf names))]) ∧ m' = m
  | .batchWriteItem, r, response, m' =>
    ∀ table entries, r.tables = [(table, entries)] →
      ∃ done left, entries = done ++ left ∧
        response.unprocessed = (if left = [] then [] else [(table, left)]) ∧
        ∀ writes, List.Forall₂ WriteEntry.Asks done writes →
          m' = writes.flatten.foldl (write names) m
  | .transactGetItems, r, response, m' =>
    response.results = r.entries.map (fun entry => { item := m (entry.get.key.valuesOf names) }) ∧
      m' = m
  | .transactWriteItems, r, _, m' =>
    ∀ writes, List.Forall₂ TransactWriteEntry.Asks r.entries writes →
      m' = writes.flatten.foldl (write names) m

end ItemMap

theorem WriteEntry.Asks.writes_eq {entry : WriteEntry} {writes : List Store.Write}
    (asks : entry.Asks writes) : entry.writes = writes := by
  cases asks <;> rfl

theorem TransactWriteEntry.Asks.changes_eq {entry : TransactWriteEntry}
    {writes : List Store.Write} (asks : entry.Asks writes) : entry.changes = writes := by
  cases asks <;> rfl

/-- The writes of entries are those of each of them, one after the other. -/
theorem flatMap_eq_flatten_of_forall₂ {α β : Type} {R : α → List β → Prop} {f : α → List β}
    {as : List α} {parts : List (List β)} (related : List.Forall₂ R as parts)
    (agrees : ∀ a part, R a part → f a = part) : as.flatMap f = parts.flatten := by
  induction related with
  | nil => rfl
  | cons first _ ih => rw [List.flatMap_cons, List.flatten_cons, agrees _ _ first, ih]

/-! ### The map of a store -/

namespace Store

variable {s s' : Store} {item : Item} {items : List Item}

/-- The map that items stand for; the first item of a key counts. -/
def contentsOf (s : Store) (items : List Item) : ItemMap :=
  fun key => items.find? fun item => s.keyValues item = key

/-- The map that a store stands for. -/
def contents (s : Store) : ItemMap :=
  s.contentsOf s.items

/-- The item of a key is that of its values, so that a store is asked by values only. -/
theorem lookup_eq (s : Store) (key : Item) : s.lookup key = s.contents (s.keyValues key) := by
  unfold lookup contents contentsOf
  congr
  funext item
  rw [Bool.eq_iff_iff, hasKey_iff, decide_eq_true_iff]

theorem contentsOf_cons (s : Store) (item : Item) (items : List Item) :
    s.contentsOf (item :: items) =
      Function.update (s.contentsOf items) (s.keyValues item) (some item) := by
  funext key
  unfold contentsOf
  rw [Function.update_apply, List.find?_cons]
  by_cases same : s.keyValues item = key
  · rw [decide_eq_true same, if_pos same.symm]
  · rw [decide_eq_false same, if_neg (Ne.symm same)]

theorem contentsOf_eq_none {key : List (Option Attribute)}
    (absent : key ∉ items.map s.keyValues) : s.contentsOf items key = none := by
  refine List.find?_eq_none.2 fun item mem same => absent ?_
  exact List.mem_map.2 ⟨item, mem, of_decide_eq_true same⟩

/-- The key of an item has the item. Were there two items with the key, the map would have the first
of them. -/
theorem contentsOf_of_mem (distinct : (items.map s.keyValues).Nodup) (mem : item ∈ items) :
    s.contentsOf items (s.keyValues item) = some item := by
  induction items with
  | nil => cases mem
  | cons other rest ih =>
      rw [List.map_cons, List.nodup_cons] at distinct
      rw [contentsOf_cons]
      rcases List.mem_cons.1 mem with rfl | mem
      · exact Function.update_self _ _ _
      · have differ : s.keyValues item ≠ s.keyValues other :=
          fun same => distinct.1 (same ▸ List.mem_map_of_mem mem)
        rw [Function.update_of_ne differ]
        exact ih distinct.2 mem

theorem contents_of_mem (distinct : s.Distinct) (mem : item ∈ s.items) :
    s.contents (s.keyValues item) = some item :=
  contentsOf_of_mem distinct mem

/-- The map has the items of the store, each at its key, and no others. -/
theorem contents_eq_some_iff (distinct : s.Distinct) {key : List (Option Attribute)} :
    s.contents key = some item ↔ item ∈ s.items ∧ s.keyValues item = key := by
  constructor
  · intro found
    have same := List.find?_some found
    exact ⟨List.mem_of_find?_eq_some found, of_decide_eq_true same⟩
  · rintro ⟨mem, rfl⟩
    exact contents_of_mem distinct mem

/-! ### Writes are changes -/

/-- An insertion sets the key of the item, wherever the item goes. The key has to be new, as it is
when no item is replaced. -/
theorem contentsOf_insertInOrder (new : s.keyValues item ∉ items.map s.keyValues) :
    s.contentsOf (s.insertInOrder item items) =
      Function.update (s.contentsOf items) (s.keyValues item) (some item) := by
  induction items with
  | nil => exact s.contentsOf_cons item []
  | cons other rest ih =>
      rw [List.map_cons, List.mem_cons, not_or] at new
      rw [insertInOrder]
      split
      · exact s.contentsOf_cons item (other :: rest)
      · rw [contentsOf_cons, ih new.2, contentsOf_cons, Function.update_comm new.1]

/-- A replacement sets the key of the item, and moves nothing. -/
theorem contentsOf_replaceFirst (present : s.keyValues item ∈ items.map s.keyValues) :
    s.contentsOf (s.replaceFirst item items) =
      Function.update (s.contentsOf items) (s.keyValues item) (some item) := by
  induction items with
  | nil => cases present
  | cons other rest ih =>
      rw [replaceFirst]
      split
      · next same =>
          rw [contentsOf_cons, contentsOf_cons, hasKey_keyOf.1 same, Function.update_idem]
      · next differs =>
          have differs : s.keyValues item ≠ s.keyValues other :=
            fun same => differs (hasKey_keyOf.2 same.symm)
          rw [List.map_cons, List.mem_cons] at present
          rw [contentsOf_cons, ih (present.resolve_left differs), contentsOf_cons,
            Function.update_comm differs]

/-- Putting an item sets its key, be it new or not. -/
theorem contents_upsert (s : Store) (item : Item) :
    (s.upsert item).contents =
      Function.update s.contents (s.keyValues item) (some item) := by
  unfold upsert
  by_cases present : s.contains (s.keyOf item)
  · rw [if_pos present]
    exact contentsOf_replaceFirst (contains_keyOf_iff.1 present)
  · rw [if_neg present]
    exact contentsOf_insertInOrder (mt contains_keyOf_iff.2 present)

/-- Taking the first item of a key away takes away all that the key has, where no two items have the
same key. -/
theorem contentsOf_eraseP (key : Item) (distinct : (items.map s.keyValues).Nodup) :
    s.contentsOf (items.eraseP (s.hasKey key)) =
      Function.update (s.contentsOf items) (s.keyValues key) none := by
  induction items with
  | nil => exact (Function.update_eq_self _ _).symm
  | cons other rest ih =>
      rw [List.map_cons, List.nodup_cons] at distinct
      by_cases same : s.hasKey key other
      · rw [List.eraseP_cons_of_pos same, contentsOf_cons, ← hasKey_iff.1 same,
          Function.update_idem, ← contentsOf_eq_none distinct.1, Function.update_eq_self]
      · have differs : s.keyValues key ≠ s.keyValues other :=
          fun equal => same (hasKey_iff.2 equal.symm)
        rw [List.eraseP_cons_of_neg same, contentsOf_cons, ih distinct.2, contentsOf_cons,
          Function.update_comm differs]

/-- The item that an update puts is read from the map: the item of the key, or the key alone where
there is none. -/
theorem updated_eq (s : Store) (key : Item) (update : String) (names : Dict String)
    (values : Dict Attribute) :
    s.updated key update names values =
      s.contents.updated s.keyNames key update names values := by
  unfold updated
  rw [lookup_eq]
  rfl

/-- A write of a store is a change of its map. Different keys are what makes a removal take away all
that a key has. -/
theorem contents_apply (distinct : s.Distinct) (w : Write) :
    (w.apply s).contents = s.contents.write s.keyNames w := by
  cases w with
  | clear => rfl
  | put item => exact s.contents_upsert item
  | remove key => exact contentsOf_eraseP key distinct
  | update key text names values =>
      show (s.upsert _).contents = _
      rw [updated_eq]
      exact s.contents_upsert _

theorem contents_foldl (distinct : s.Distinct) (writes : List Write) :
    (writes.foldl Write.apply s).contents =
      writes.foldl (ItemMap.write s.keyNames) s.contents := by
  induction writes generalizing s with
  | nil => rfl
  | cons w rest ih =>
      rw [List.foldl_cons, ih (distinct.apply w), contents_apply distinct, Write.keyNames_apply,
        List.foldl_cons]

/-! ### Operations of a store -/

/-- A batch for one table leaves out entries from some point on, which the capacity decides. -/
theorem exists_of_writeTables (s : Store) (table : String) (entries : List WriteEntry) :
    ∃ left, entries = admitted s.writeCapacity entries ++ left ∧
      (s.writeTables [(table, entries)]).1 = if left = [] then [] else [(table, left)] := by
  refine ⟨(s.writeAll entries).1, ?_, ?_⟩
  · unfold writeAll admitted
    cases s.writeCapacity with
    | none => exact (List.append_nil entries).symm
    | some capacity => exact (List.take_append_drop capacity entries).symm
  · show (if (s.writeAll entries).1.isEmpty then _ else _) = _
    simp only [List.isEmpty_iff]
    rfl

/-- A query returns items of the store, and makes none up. -/
theorem mem_of_query {r : Request.Query} {response : Response.Query}
    (answered : s.query r = .ok response) (mem : item ∈ response.items) : item ∈ s.items := by
  cases partition : partitionOf r.keyCondition r.names r.values with
  | none =>
      unfold query at answered
      rw [partition] at answered
      cases answered
  | some entry =>
      rw [query_eq_of_partition partition] at answered
      cases answered
      exact (mem_partitionItems ((s.page_sublist _ _ _).subset mem)).1

/-- The operations of a store are those of its map, each of the twelve. The cases are the
operations, as each has an answer of its own. -/
theorem answers_handle (distinct : s.Distinct) {op : Operation} {r : op.Request}
    {response : op.Response} (succeeds : s.handle op r = .ok (response, s')) :
    s.contents.Answers s.keyNames op r response s'.contents := by
  have after : s'.contents =
      (writesOf s.writeCapacity op r).foldl (ItemMap.write s.keyNames) s.contents := by
    rw [handle_eq_foldl succeeds, contents_foldl distinct]
  have looked (keys : List Item) : keys.filterMap s.lookup =
      keys.filterMap fun key => s.contents (key.valuesOf s.keyNames) :=
    List.filterMap_congr fun key _ => s.lookup_eq key
  cases op with
  | getItem =>
      cases succeeds
      exact ⟨s.lookup_eq r.key, rfl⟩
  | query =>
      obtain ⟨response, answered, succeeds⟩ := exists_of_except_bind succeeds
      cases succeeds
      exact ⟨fun item mem => contents_of_mem distinct (mem_of_query answered mem), rfl⟩
  | scan =>
      cases succeeds
      refine ⟨fun item mem => contents_of_mem distinct ?_, rfl⟩
      exact (s.page_sublist s.items r.exclusiveStartKey r.limit).subset mem
  | batchGetItem =>
      cases succeeds
      refine ⟨fun table read single => ?_, rfl⟩
      dsimp only
      rw [single, ← looked]
      rfl
  | batchWriteItem =>
      intro table entries single
      obtain ⟨left, whole, isLeft⟩ := s.exists_of_writeTables table entries
      refine ⟨admitted s.writeCapacity entries, left, whole, ?_, fun writes asks => ?_⟩
      · cases succeeds
        rw [← isLeft, ← single]
      · rw [after, ← flatMap_eq_flatten_of_forall₂ asks fun _ _ asks => asks.writes_eq]
        show (r.tables.flatMap _).foldl _ _ = _
        rw [single, List.flatMap_singleton]
  | transactGetItems =>
      cases succeeds
      refine ⟨List.map_congr_left fun entry _ => ?_, rfl⟩
      rw [s.lookup_eq entry.get.key]
      rfl
  | transactWriteItems =>
      intro writes asks
      rw [after, ← flatMap_eq_flatten_of_forall₂ asks fun _ _ asks => asks.changes_eq]
      rfl
  -- the other operations return nothing that they read, and make one write or none
  | _ => exact after

/-! ### Runs -/

/-- A request that is answered is handled, as a prepared failure would have been the answer. -/
theorem handle_of_send {op : Operation} {r : op.Request} {response : op.Response}
    (answered : (client.send op r).result s = .ok response) :
    (s.receive ⟨op, r⟩).handle op r = .ok (response, (client.send op r).after s) := by
  have calm : s.failure = none := calm_of_send answered
  unfold client Exchange.result Exchange.after Exchange.run at *
  dsimp only at answered ⊢
  rw [show (s.receive ⟨op, r⟩).failure = none from calm] at answered ⊢
  dsimp only at answered ⊢
  cases handled : (s.receive ⟨op, r⟩).handle op r with
  | error cause =>
      rw [handled] at answered
      cases answered
  | ok both =>
      rw [handled] at answered
      cases answered
      rfl

/-- After a run without items at its start a key has what the last change at the key has left.
Requests that fail have no changes. -/
theorem contents_run (partitionKey : String) (sortKey : Option String) (acts : List Act)
    (key : List (Option Attribute)) :
    ((empty partitionKey sortKey).run acts).contents key =
      ((ItemMap.changesAlong (partitionKey :: sortKey.toList) (fun _ => none)
        ((empty partitionKey sortKey).writesAlong acts)).reverse.findSome?
          (ItemMap.Change.at (partitionKey :: sortKey.toList) key)).getD none := by
  set start := empty partitionKey sortKey
  have folded := contents_foldl (distinct_empty partitionKey sortKey) (start.writesAlong acts)
  show (start.run acts).bare.contents key = _
  rw [run_eq_foldl]
  show ((start.writesAlong acts).foldl Write.apply start).contents key = _
  rw [folded]
  exact ItemMap.foldl_write _ _ _

/-- Along a run a store stands for the map of its items, the operations of the store are those of
the map, and a get returns the item that the last change at its key has left, or none. The run is
any list of acts, prepared failures and limited capacities among them. -/
theorem run_answers_and_reads_last_change (partitionKey : String) (sortKey : Option String)
    (acts : List Act) :
    let start := empty partitionKey sortKey
    let s := start.run acts
    let names := partitionKey :: sortKey.toList
    (∀ key item, s.contents key = some item ↔ item ∈ s.items ∧ item.valuesOf names = key) ∧
      (∀ (op : Operation) (r : op.Request) (response : op.Response),
        (client.send op r).result s = .ok response →
        s.contents.Answers names op r response ((client.send op r).after s).contents) ∧
      ∀ r : Request.GetItem, s.failure = none →
        ∃ response, (client.send .getItem r).result s = .ok response ∧
          response.item =
            ((ItemMap.changesAlong names (fun _ => none) (start.writesAlong acts)).reverse.findSome?
              (ItemMap.Change.at names (r.key.valuesOf names))).getD none := by
  intro start s names
  have keyNames : s.keyNames = names := keyNames_run start acts
  have distinct : s.Distinct := (distinct_empty partitionKey sortKey).run acts
  refine ⟨fun key item => ?_, fun op r response answered => ?_, fun r calm => ?_⟩
  · rw [contents_eq_some_iff distinct, ← keyNames]
    rfl
  · have received : (s.receive ⟨op, r⟩).Distinct := distinct
    have answers := answers_handle received (handle_of_send answered)
    rwa [show (s.receive ⟨op, r⟩).keyNames = names from keyNames] at answers
  · -- the map of a run is made by its changes, and the last one at the key decides
    refine ⟨{ item := s.lookup r.key }, result_send calm .getItem r, ?_⟩
    rw [s.lookup_eq r.key, ← contents_run]
    exact congrArg s.contents (congrArg (List.map (Dict.get? r.key)) keyNames)

/-- A value that was put, updated and then deleted by a batch that was cut short. -/
theorem run_answers_and_reads_last_change_visits :
    let start := empty "id" none
    let ann : Item := [("id", .string "ann")]
    let bob : WriteEntry := { put := some { item := [("id", .string "bob")] } }
    let acts := [Act.send .putItem { table := "visits", item := ann },
      .send .updateItem
        { table := "visits", key := ann, update := "SET #0 = :0", names := [("#0", "times")],
          values := [(":0", .number "2")] },
      .limit 1]
    let s := start.run acts
    let batch : Request.BatchWriteItem :=
      { tables := [("visits", [{ delete := some { key := ann } }, bob])] }
    let left : Response.BatchWriteItem := { unprocessed := [("visits", [bob])] }
    (client.send .batchWriteItem batch).result s = .ok left ∧
      s.contents.Answers ["id"] .batchWriteItem batch left
        ((client.send .batchWriteItem batch).after s).contents ∧
      s.failure = none ∧
      ∃ response, (client.send .getItem { table := "visits", key := ann }).result s = .ok response ∧
        response.item = some [("id", .string "ann"), ("times", .number "2")] := by
  intro start ann bob acts s batch left
  have answered : (client.send .batchWriteItem batch).result s = .ok left := by
    rfl
  obtain ⟨-, answers, reads⟩ := run_answers_and_reads_last_change "id" none acts
  obtain ⟨response, got, last⟩ := reads { table := "visits", key := ann } rfl
  refine ⟨answered, answers _ _ _ answered, rfl, response, got, last.trans ?_⟩
  decide +kernel

end Store

end DocumentTable
