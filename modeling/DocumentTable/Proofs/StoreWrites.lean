import DocumentTable.Proofs.Exchange
import DocumentTable.Store.Operations

/-!
# The writes of a store

However many operations write, a store changes its items in four ways only. What these keep is kept
by every operation.

## Main definitions

* `Store.Write`: the ways in which a store changes its items
* `Store.writesOf`: the writes that a request makes when it succeeds
* `Store.OfContents`: a property of stores that depends on their items and keys only

## Main results

* `Store.handle_eq_foldl`: the store after a success is the one after the writes of the request
* `Store.keeps_send`: what the writes of a request keep is kept by sending it

## Design notes

The writes of a batch depend on the capacity of the store, which no operation changes.
-/

namespace DocumentTable

namespace Store

/-- A change of the items. -/
inductive Write where
  | clear
  | put (item : Item)
  | remove (key : Item)
  | update (key : Item) (text : String) (names : Dict String) (values : Dict Attribute)

/-- The store after a change. -/
def Write.apply (s : Store) : Write → Store
  | clear => { s with items := [] }
  | put item => s.upsert item
  | remove key => s.remove key
  | update key text names values => s.upsert (s.updated key text names values)

end Store

/-- The write of an entry of a batch. -/
def WriteEntry.writes (entry : WriteEntry) : List Store.Write :=
  match entry.put, entry.delete with
  | some put, _ => [.put put.item]
  | none, some delete => [.remove delete.key]
  | none, none => []

/-- The write of an entry of a transaction. -/
def TransactWriteEntry.changes (entry : TransactWriteEntry) : List Store.Write :=
  match entry.delete, entry.put, entry.update with
  | some delete, _, _ => [.remove delete.key]
  | none, some put, _ => [.put put.item]
  | none, none, some update => [.update update.key update.update update.names update.values]
  | none, none, none => []

namespace Store

/-- The entries of a batch that a capacity lets happen. -/
def admitted (capacity : Option Nat) (entries : List WriteEntry) : List WriteEntry :=
  match capacity with
  | none => entries
  | some capacity => entries.take capacity

/-- Entries that are let through are entries of the batch. -/
theorem mem_of_mem_admitted {capacity : Option Nat} {entries : List WriteEntry}
    {entry : WriteEntry} (mem : entry ∈ admitted capacity entries) : entry ∈ entries := by
  cases capacity with
  | none => exact mem
  | some capacity => exact List.mem_of_mem_take mem

/-- The writes that a request makes when it succeeds. -/
def writesOf (capacity : Option Nat) : (op : Operation) → op.Request → List Write
  | .deleteTable, _ => [.clear]
  | .putItem, r => [.put r.item]
  | .updateItem, r => [.update r.key r.update r.names r.values]
  | .deleteItem, r => [.remove r.key]
  | .batchWriteItem, r =>
    r.tables.flatMap fun entry => (admitted capacity entry.2).flatMap WriteEntry.writes
  | .transactWriteItems, r => r.entries.flatMap TransactWriteEntry.changes
  | _, _ => []

/-! ### Operations are writes -/

theorem write_eq : write = fun s entry => entry.writes.foldl Write.apply s := by
  funext s entry
  obtain ⟨put, delete⟩ := entry
  cases put <;> cases delete <;> rfl

/-- An entry of a transaction makes its changes one after the other. -/
theorem transact_eq : transact = fun s entry => entry.changes.foldl Write.apply s := by
  funext s entry
  obtain ⟨check, put, delete, update⟩ := entry
  cases delete <;> cases put <;> cases update <;> rfl

@[simp] theorem Write.writeCapacity_apply (s : Store) (w : Write) :
    (w.apply s).writeCapacity = s.writeCapacity := by
  cases w <;> rfl

theorem writeCapacity_foldl (writes : List Write) (s : Store) :
    (writes.foldl Write.apply s).writeCapacity = s.writeCapacity := by
  induction writes generalizing s with
  | nil => rfl
  | cons w rest ih => rw [List.foldl_cons, ih, Write.writeCapacity_apply]

/-- A batch for one table makes the writes of the entries that the capacity lets through. -/
theorem writeAll_eq_foldl (s : Store) (entries : List WriteEntry) :
    (s.writeAll entries).2 =
      ((admitted s.writeCapacity entries).flatMap WriteEntry.writes).foldl Write.apply s := by
  unfold writeAll admitted
  rw [List.foldl_flatMap, write_eq]
  cases s.writeCapacity <;> rfl

theorem writeTables_eq_foldl (s : Store) (tables : Dict (List WriteEntry)) :
    (s.writeTables tables).2 =
      (tables.flatMap fun entry =>
        (admitted s.writeCapacity entry.2).flatMap WriteEntry.writes).foldl Write.apply s := by
  induction tables generalizing s with
  | nil => rfl
  | cons entry rest ih =>
      obtain ⟨table, entries⟩ := entry
      show ((s.writeAll entries).2.writeTables rest).2 = _
      rw [ih, List.flatMap_cons, List.foldl_append, writeAll_eq_foldl, writeCapacity_foldl]

/-- The store after a success is the one after the writes of the request. Whatever an operation
does, it does by its writes, so that invariants need to be shown for these only. -/
theorem handle_eq_foldl {op : Operation} {r : op.Request} {s s' : Store} {response : op.Response}
    (succeeds : s.handle op r = .ok (response, s')) :
    s' = (writesOf s.writeCapacity op r).foldl Write.apply s := by
  cases op with
  | putItem =>
      change s.putItem r = _ at succeeds
      unfold putItem at succeeds
      split at succeeds <;> cases succeeds
      rfl
  | updateItem =>
      change s.updateItem r = _ at succeeds
      unfold updateItem at succeeds
      dsimp only at succeeds
      split at succeeds <;> cases succeeds
      rfl
  | deleteItem =>
      change s.deleteItem r = _ at succeeds
      unfold deleteItem at succeeds
      split at succeeds <;> cases succeeds
      rfl
  | query =>
      change (s.query r >>= fun response => pure (response, s)) = _ at succeeds
      cases read : s.query r with
      | error cause =>
          rw [read] at succeeds
          cases succeeds
      | ok page =>
          rw [read] at succeeds
          cases succeeds
          rfl
  | batchWriteItem =>
      cases succeeds
      exact s.writeTables_eq_foldl r.tables
  | transactWriteItems =>
      change s.transactWriteItems r = _ at succeeds
      unfold transactWriteItems at succeeds
      split at succeeds <;> cases succeeds
      rw [transact_eq]
      exact List.foldl_flatMap.symm
  -- the other operations always succeed, and of them only deleting the table writes
  | _ =>
      cases succeeds
      rfl

/-! ### Properties that are kept -/

/-- A property of stores that depends on their items and keys only. -/
structure OfContents (P : Store → Prop) : Prop where
  receive : ∀ s call, P s → P (s.receive call)
  failure : ∀ s cause, P s → P { s with failure := cause }
  writeCapacity : ∀ s capacity, P s → P { s with writeCapacity := capacity }

/-- What the writes of a request keep is kept by sending it, also when it fails. The property must
not depend on the log. -/
theorem keeps_send {P : Store → Prop} (contents : OfContents P) {op : Operation} {r : op.Request}
    (kept : ∀ capacity, ∀ w ∈ writesOf capacity op r, ∀ s, P s → P (w.apply s)) :
    (client.send op r).Keeps P := by
  intro s holds
  have received := contents.receive s ⟨op, r⟩ holds
  show P (client.send op r s).2
  unfold client
  dsimp only
  split
  · exact contents.failure _ _ received
  · split
    · next response s' succeeds =>
        rw [handle_eq_foldl succeeds]
        refine List.foldlRecOn _ _ received fun s holds w mem => kept _ w mem s holds
    · exact received

end Store

end DocumentTable
