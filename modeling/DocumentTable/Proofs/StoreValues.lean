import DocumentTable.Proofs.Calls
import DocumentTable.Proofs.Closure
import DocumentTable.Proofs.Marshaller
import DocumentTable.Proofs.StoreKeys

/-!
# Values in a store

A store invents no values: the attributes of its items are those that came with requests, and the
requests of a table carry what its marshaller has written.

## Main definitions

* `Each`: all attributes of an item have a property
* `Store.Carries`, `Store.Write.Carries`: the attributes of all items, or those of a write, have it
* `Marshaller.Writes`, `Marshaller.Reads`, `Marshaller.Restores`: the attributes that a marshaller
  writes, those that it reads, and those that it reads and then writes as they were
* `Marshaller.Faithful`: a marshaller restores what it writes

## Main results

* `Store.Carries.apply`: a store carries what its writes carry
* `Table.Makes.carries`: the writes that a table asks for carry what its marshaller writes
-/

namespace DocumentTable

/-- All attributes of an item have a property. -/
def Each (Q : Attribute → Prop) (item : Item) : Prop :=
  ∀ entry ∈ item, Q entry.2

variable {Q : Attribute → Prop} {item : Item}

/-- A property may be replaced by a weaker one. Runs are described by one property and read with
another. -/
theorem Each.mono {Q' : Attribute → Prop} (each : Each Q item) (weaker : ∀ a, Q a → Q' a) :
    Each Q' item :=
  fun entry mem => weaker _ (each entry mem)

theorem Each.insert (each : Each Q item) (name : String) {a : Attribute} (holds : Q a) :
    Each Q (Dict.insert name a item) := by
  intro entry mem
  rcases Dict.mem_of_mem_insert mem with rfl | mem
  · exact holds
  · exact each entry mem

theorem Each.erase (each : Each Q item) (name : String) : Each Q (Dict.erase item name) :=
  fun entry mem => each entry (List.mem_of_mem_filter mem)

theorem Each.get? (each : Each Q item) {name : String} {a : Attribute}
    (found : Dict.get? item name = some a) : Q a :=
  each _ (Dict.mem_of_get? found)

/-- An item that is made of entries has the property when they have it; of several entries with one
name the last is kept. -/
theorem Each.ofList {entries : List (String × Attribute)} (each : ∀ entry ∈ entries, Q entry.2) :
    Each Q (Dict.ofList entries) :=
  fun entry mem => each entry (Dict.mem_of_mem_ofList mem)

/-! ### Values of stores -/

namespace Store

variable {s : Store}

/-- All attributes of all items have a property. -/
def Carries (Q : Attribute → Prop) (s : Store) : Prop :=
  ∀ item ∈ s.items, Each Q item

/-- All attributes that a write may leave in an item have a property. -/
def Write.Carries (Q : Attribute → Prop) : Write → Prop
  | clear => True
  | put item => Each Q item
  | remove _ => True
  | update key _ _ values => Each Q key ∧ Each Q values

/-- The property of a write may be replaced by a weaker one. -/
theorem Write.Carries.mono {Q' : Attribute → Prop} {w : Write} (carries : w.Carries Q)
    (weaker : ∀ a, Q a → Q' a) : w.Carries Q' := by
  cases w with
  | clear => trivial
  | put item => exact Each.mono carries weaker
  | remove key => trivial
  | update key text names values =>
      exact ⟨Each.mono carries.1 weaker, Each.mono carries.2 weaker⟩

theorem carries_empty (Q : Attribute → Prop) (partitionKey : String) (sortKey : Option String) :
    (empty partitionKey sortKey).Carries Q :=
  nofun

/-- Whether a store carries something is a matter of its items alone, neither of its log nor of its
settings. -/
theorem carries_ofContents (Q : Attribute → Prop) : OfContents (Carries Q) where
  receive _ _ carries := carries
  failure _ _ carries := carries
  writeCapacity _ _ carries := carries

/-- Putting an item keeps the property if the item has it. -/
theorem Carries.upsert (carries : s.Carries Q) (each : Each Q item) :
    (s.upsert item).Carries Q := by
  intro x mem
  rcases mem_upsert mem with rfl | mem
  · exact each
  · exact carries x mem

/-- An update assigns values of the request, whatever its text and its names are. The text is not
looked at for this. -/
theorem Each.applyUpdate (each : Each Q item) {values : Dict Attribute} (given : Each Q values)
    (text : String) (names : Dict String) : Each Q (applyUpdate text names values item) := by
  unfold Store.applyUpdate
  dsimp only
  refine List.foldlRecOn _ _ (List.foldlRecOn _ _ each ?_) ?_
  · intro item each assignment _
    unfold assign
    split
    · next found => exact each.insert _ (given.get? found)
    · exact each
  · intro item each target _
    unfold unset
    split
    · exact each.erase _
    · exact each

/-- An item that is found by its key has the property. -/
theorem Carries.lookup (carries : s.Carries Q) {key : Item} (found : s.lookup key = some item) :
    Each Q item :=
  carries item (List.mem_of_find?_eq_some found)

/-- An update leaves an item that was there or its key, with values of the request. The key counts
as well, since an update may make a new item of it. -/
theorem Carries.updated (carries : s.Carries Q) {key : Item} {text : String} {names : Dict String}
    {values : Dict Attribute} (given : (Write.update key text names values).Carries Q) :
    Each Q (s.updated key text names values) := by
  refine Each.applyUpdate ?_ given.2 text names
  cases found : s.lookup key with
  | none => exact given.1
  | some item => exact carries.lookup found

/-- A store carries what its writes carry. Over a run this says that the values in a store are those
of its requests. -/
theorem Carries.apply (carries : s.Carries Q) {w : Write} (given : w.Carries Q) :
    (w.apply s).Carries Q := by
  cases w with
  | clear => exact nofun
  | put item => exact carries.upsert given
  | remove key => exact fun item mem => carries item (List.mem_of_mem_eraseP mem)
  | update key text names values => exact carries.upsert (carries.updated given)

end Store

/-! ### Values of requests -/

namespace Marshaller

/-- The attributes that a marshaller writes. -/
def Writes (m : Marshaller) (a : Attribute) : Prop :=
  ∃ value, m.encode value = .ok a

/-- The attributes that a marshaller reads. -/
def Reads (m : Marshaller) (a : Attribute) : Prop :=
  ∃ value, m.decode a = .ok value

/-- The attributes that a marshaller reads and then writes as they were. -/
def Restores (m : Marshaller) (a : Attribute) : Prop :=
  ∃ value, m.decode a = .ok value ∧ m.encode value = .ok a

/-- A marshaller restores what it writes. -/
def Faithful (m : Marshaller) : Prop :=
  ∀ a, m.Writes a → m.Restores a

/-- The default marshaller restores what it writes, since it decodes an attribute as the value that
it was encoded from. -/
theorem faithful_json : json.Faithful := by
  rintro _ ⟨value, ⟨⟩⟩
  exact ⟨value, decodeJson_encodeJson value, rfl⟩

/-- The marshaller without floats restores what it writes, as it writes less than the default one.
-/
theorem faithful_withoutFloats : withoutFloats.Faithful := by
  rintro a ⟨value, written⟩
  refine ⟨value, ?_, written⟩
  unfold withoutFloats at written
  dsimp only at written
  split at written <;> cases written
  exact decodeJson_encodeJson value

end Marshaller

namespace Table

variable {t : Table}

/-- The attributes of an encoded item are what the marshaller has written. -/
theorem writes_encodeItem {document : Document} (encoded : t.encodeItem document = .ok item) :
    Each t.marshaller.Writes item := by
  intro entry mem
  obtain ⟨value, -, written⟩ :=
    Dict.exists_of_mem_mapValuesM (except_mapError_ok_iff.1 encoded) mem
  exact ⟨value, written⟩

theorem writes_encodeEntries {entries : List (String × Json)}
    (encoded : t.encodeEntries entries = .ok item) : Each t.marshaller.Writes item := by
  obtain ⟨encoded', made, encoded⟩ := exists_of_except_bind encoded
  cases encoded
  exact Each.ofList (writes_encodeItem made)

theorem writes_keyAttribute {document : Document} {name : String} {entry : String × Attribute}
    (encoded : t.keyAttribute document name = .ok entry) : t.marshaller.Writes entry.2 := by
  unfold keyAttribute at encoded
  split at encoded
  · next value _ =>
      obtain ⟨a, written, encoded⟩ := exists_of_except_bind encoded
      cases encoded
      exact ⟨value, except_mapError_ok_iff.1 written⟩
  · cases encoded

/-- Key attributes are what the marshaller has written, by induction on the names of the key. -/
theorem writes_keyAttributes {document : Document} {names : List String}
    {entries : List (String × Attribute)} (encoded : t.keyAttributes document names = .ok entries) :
    ∀ entry ∈ entries, t.marshaller.Writes entry.2 := by
  induction names generalizing entries with
  | nil =>
      cases encoded
      exact nofun
  | cons name names ih =>
      obtain ⟨entry, first, encoded⟩ := exists_of_except_bind encoded
      obtain ⟨rest, others, encoded⟩ := exists_of_except_bind encoded
      cases encoded
      exact List.forall_mem_cons.2 ⟨writes_keyAttribute first, ih others⟩

/-- The attributes of a key are what the marshaller has written. -/
theorem writes_keyOf {document : Document} (encoded : t.keyOf document = .ok item) :
    Each t.marshaller.Writes item := by
  obtain ⟨entries, made, encoded⟩ := exists_of_except_bind encoded
  cases encoded
  exact Each.ofList (writes_keyAttributes made)

/-- The values behind placeholders are what the marshaller has written. No expression brings other
values in. -/
theorem writes_substituted {α : Type} {x : Expressions α} {a : α} {names : Dict String}
    {values : Dict Attribute} (made : (t.substituted x).result = .ok (a, ⟨names, values⟩)) :
    Each t.marshaller.Writes values := by
  obtain ⟨⟨_, registry⟩, -, made⟩ := Traced.exists_of_result_bind made
  obtain ⟨_, substituted, made⟩ := Traced.exists_of_result_bind made
  cases made
  obtain ⟨values, encoded, substituted⟩ := exists_of_except_bind substituted
  cases substituted
  exact writes_encodeEntries encoded

/-! ### Writes of requests -/

open Store

/-- A delete in a transaction carries its key, and that is what the marshaller has written. -/
theorem carries_transactDelete {w : ConditionalItem} {entry : TransactWriteEntry}
    (made : (t.transactDelete w).result = .ok entry) :
    ∀ change ∈ entry.changes, change.Carries t.marshaller.Writes := by
  obtain ⟨key, -, made⟩ := Traced.exists_of_result_bind made
  obtain ⟨⟨_, _, _⟩, -, made⟩ := Traced.exists_of_result_bind made
  cases made
  exact List.forall_mem_singleton.2 trivial

/-- A put in a transaction carries an item that the marshaller has written. -/
theorem carries_transactPut {w : ConditionalItem} {entry : TransactWriteEntry}
    (made : (t.transactPut w).result = .ok entry) :
    ∀ change ∈ entry.changes, change.Carries t.marshaller.Writes := by
  obtain ⟨⟨_, _, _⟩, -, made⟩ := Traced.exists_of_result_bind made
  obtain ⟨item, encoded, made⟩ := Traced.exists_of_result_bind made
  cases made
  exact List.forall_mem_singleton.2 (writes_encodeItem encoded)

/-- An update in a transaction carries its key and its values, both written by the marshaller. -/
theorem carries_transactUpdate {w : ConditionalUpdate} {entry : TransactWriteEntry}
    (made : (t.transactUpdate w).result = .ok entry) :
    ∀ change ∈ entry.changes, change.Carries t.marshaller.Writes := by
  obtain ⟨key, encoded, made⟩ := Traced.exists_of_result_bind made
  obtain ⟨⟨⟨_, _⟩, _, _⟩, substituted, made⟩ := Traced.exists_of_result_bind made
  cases made
  exact List.forall_mem_singleton.2 ⟨writes_keyOf encoded, writes_substituted substituted⟩

/-- A transaction carries what its entries carry, whatever kinds they are of. -/
theorem carries_transactWriteRequest {w : Transaction} {r : Request.TransactWriteItems}
    (made : (t.transactWriteRequest w).result = .ok r) :
    ∀ entry ∈ r.entries, ∀ change ∈ entry.changes, change.Carries t.marshaller.Writes := by
  intro entry mem
  rw [transactWriteRequest] at made
  split at made
  · cases made
  obtain ⟨deletes, hdeletes, made⟩ := Traced.exists_of_result_bind made
  obtain ⟨puts, hputs, made⟩ := Traced.exists_of_result_bind made
  obtain ⟨updates, hupdates, made⟩ := Traced.exists_of_result_bind made
  cases made
  rcases List.mem_append.1 mem with mem | mem
  · rcases List.mem_append.1 mem with mem | mem
    · obtain ⟨_, -, made⟩ := Traced.exists_of_mem_result_mapM hdeletes mem
      exact carries_transactDelete made
    · obtain ⟨_, -, made⟩ := Traced.exists_of_mem_result_mapM hputs mem
      exact carries_transactPut made
  · obtain ⟨_, -, made⟩ := Traced.exists_of_mem_result_mapM hupdates mem
    exact carries_transactUpdate made

/-- A batch asks for no other writes than those of the entries that it was made of. -/
theorem carries_batchWriteRequests {entries : List WriteEntry}
    (each : ∀ entry ∈ entries, ∀ w ∈ entry.writes, w.Carries Q) (capacity : Option Nat)
    {r : Request.BatchWriteItem} (mem : r ∈ t.batchWriteRequests entries) :
    ∀ w ∈ writesOf capacity .batchWriteItem r, w.Carries Q := by
  intro w written
  obtain ⟨part, isPart, rfl⟩ := List.mem_map.1 mem
  obtain ⟨_, mem, written⟩ := List.mem_flatMap.1 written
  obtain rfl := List.mem_singleton.1 mem
  obtain ⟨entry, isAdmitted, written⟩ := List.mem_flatMap.1 written
  have whole : (chunks maxBatchWrite entries).flatten = entries :=
    flatten_chunks (by decide) entries
  refine each entry ?_ w written
  rw [← whole]
  exact List.mem_flatten_of_mem isPart (mem_of_mem_admitted isAdmitted)

/-- The writes that a table asks for carry what its marshaller writes. -/
theorem Makes.carries {op : Operation} {r : op.Request} (makes : t.Makes op r)
    (capacity : Option Nat) :
    ∀ w ∈ writesOf capacity op r, w.Carries t.marshaller.Writes := by
  cases op with
  | deleteTable => exact List.forall_mem_singleton.2 trivial
  | putItem =>
      obtain ⟨item, options, made⟩ := makes
      obtain ⟨⟨_, _, _⟩, -, made⟩ := Traced.exists_of_result_bind made
      obtain ⟨item, encoded, made⟩ := Traced.exists_of_result_bind made
      cases made
      exact List.forall_mem_singleton.2 (writes_encodeItem encoded)
  | updateItem =>
      obtain ⟨key, updates, options, made⟩ := makes
      obtain ⟨key, encoded, made⟩ := Traced.exists_of_result_bind made
      obtain ⟨⟨⟨_, _⟩, _, _⟩, substituted, made⟩ := Traced.exists_of_result_bind made
      cases made
      exact List.forall_mem_singleton.2 ⟨writes_keyOf encoded, writes_substituted substituted⟩
  | deleteItem => exact List.forall_mem_singleton.2 trivial
  | batchWriteItem =>
      obtain ⟨requests, ⟨items, made⟩ | ⟨keys, made⟩, mem⟩ := makes
      · obtain ⟨items', encoded, made⟩ := exists_of_except_bind made
        cases made
        refine carries_batchWriteRequests ?_ capacity mem
        rw [List.forall_mem_map]
        intro item mem
        obtain ⟨document, -, encoded⟩ := exists_of_mem_except_mapM encoded mem
        exact List.forall_mem_singleton.2 (writes_encodeItem encoded)
      · obtain ⟨keys', -, made⟩ := exists_of_except_bind made
        cases made
        refine carries_batchWriteRequests ?_ capacity mem
        rw [List.forall_mem_map]
        exact fun key _ => List.forall_mem_singleton.2 trivial
  | transactWriteItems =>
      obtain ⟨w, made⟩ := makes
      intro change mem
      obtain ⟨entry, isEntry, mem⟩ := List.mem_flatMap.1 mem
      exact carries_transactWriteRequest made entry isEntry change mem
  | _ => exact nofun

end Table

end DocumentTable
