import DocumentTable.Proofs.Except
import DocumentTable.Table.Requests

/-!
# Transactions and their single writes

A transaction of at most a hundred entries is built exactly when each of its writes can be built
alone, and each of its entries says what the request of that write alone says.

## Main definitions

* `SingleWrite`, `Transaction.writes`: the writes of a transaction, in the order of its entries
* `Table.writeAlone`: a write as an operation of its own builds it, put into the form of an entry
* `TableError.OfWrite`: the errors of a write that cannot be built

## Main results

* `Table.transactWriteRequest_eq`: a transaction that is small enough builds its writes one by one
* `Table.failsWithin_writeAlone`: a write fails for its values, its key or its expressions
* `Table.transactWriteRequest_agrees`: when a transaction is built, with which entries, and which
  error it fails with otherwise

## Design notes

Entries and single requests are built by different functions. Both are computations with events, and
they are equal as such: an entry reports the expressions that the single request reports.
-/

namespace DocumentTable

/-- A write of a transaction. -/
inductive SingleWrite where
  | delete (entry : ConditionalItem)
  | put (entry : ConditionalItem)
  | update (entry : ConditionalUpdate)

/-- The writes of a transaction: deletes, then puts, then updates. -/
def Transaction.writes (w : Transaction) : List SingleWrite :=
  w.deletes.map .delete ++ w.puts.map .put ++ w.updates.map .update

namespace TransactWriteEntry

/-- The entry that says what the request of a delete says. -/
def ofDelete (r : Request.DeleteItem) : TransactWriteEntry where
  delete := some ⟨r.table, r.key, r.condition, r.names, r.values⟩

/-- The entry that says what the request of a put says. -/
def ofPut (r : Request.PutItem) : TransactWriteEntry where
  put := some ⟨r.table, r.item, r.condition, r.names, r.values⟩

/-- The entry that says what the request of an update says. -/
def ofUpdate (r : Request.UpdateItem) : TransactWriteEntry where
  update := some ⟨r.table, r.key, r.update, r.condition, r.names, r.values⟩

end TransactWriteEntry

/-! ### Lists of computations -/

namespace Traced

variable {ε α β : Type}

/-- The results of a list of computations are made by the results of each of them, whatever they
have reported. -/
theorem result_mapM (f : α → Traced ε β) (l : List α) :
    (l.mapM f).result = l.mapM fun a => (f a).result := by
  induction l with
  | nil => rfl
  | cons a l ih =>
      rw [List.mapM_cons, List.mapM_cons, result_bind]
      refine congrArg _ (funext fun b => ?_)
      rw [result_bind, ih]
      rfl

end Traced

namespace Table

variable {t : Table}

/-! ### Entries and single requests -/

/-- A write as an operation of its own builds it, in the form of an entry. What an update returns is
its own affair. -/
def writeAlone (t : Table) (returned : Option ReturnValue) :
    SingleWrite → Traced TableError TransactWriteEntry
  | .delete entry => do
    return .ofDelete (← t.deleteRequest entry.item { condition := entry.condition })
  | .put entry => do
    return .ofPut (← t.putRequest entry.item { condition := entry.condition })
  | .update entry => do
    return .ofUpdate (← t.updateRequest entry.key entry.updates
      { condition := entry.condition, returnValue := returned })

theorem transactDelete_eq (returned : Option ReturnValue) :
    t.transactDelete = fun entry => t.writeAlone returned (.delete entry) := by
  funext entry
  simp only [transactDelete, writeAlone, deleteRequest, bind_assoc, pure_bind]
  rfl

theorem transactPut_eq (returned : Option ReturnValue) :
    t.transactPut = fun entry => t.writeAlone returned (.put entry) := by
  funext entry
  simp only [transactPut, writeAlone, putRequest, bind_assoc, pure_bind]
  rfl

theorem transactUpdate_eq (returned : Option ReturnValue) :
    t.transactUpdate = fun entry => t.writeAlone returned (.update entry) := by
  funext entry
  simp only [transactUpdate, writeAlone, updateRequest, bind_assoc, pure_bind]
  rfl

/-- A transaction that is small enough builds its writes one by one. What updates are to return has
no bearing on its entries. -/
theorem transactWriteRequest_eq {w : Transaction} (small : w.size ≤ maxTransaction)
    (returned : Option ReturnValue) :
    t.transactWriteRequest w = do return ⟨← w.writes.mapM (t.writeAlone returned)⟩ := by
  unfold transactWriteRequest Transaction.writes
  rw [if_neg (Nat.not_lt.2 small), transactDelete_eq returned, transactPut_eq returned,
    transactUpdate_eq returned]
  simp only [List.mapM_append, List.mapM_map, bind_assoc, pure_bind]
  rfl

/-- A transaction that is too large is refused before anything is built or reported. Faults in its
writes are not found then. -/
theorem transactWriteRequest_of_lt {w : Transaction} (large : maxTransaction < w.size) :
    t.transactWriteRequest w = throw (.tooManyEntries w.size) := by
  unfold transactWriteRequest
  rw [if_pos large]
  rfl

/-! ### Errors of single requests -/

/-- A computation never fails for the number of entries. -/
def Uncounted {α : Type} (x : Except TableError α) : Prop :=
  ∀ count, x ≠ .error (.tooManyEntries count)

end Table

/-- The errors of values and expressions of a write. -/
inductive TableError.OfWrite : TableError → Prop
  | expression (cause : ExpressionError) : OfWrite (.expression cause)
  | marshal (cause : MarshalError) : OfWrite (.marshal cause)
  | missingKeyAttribute (name : String) : OfWrite (.missingKeyAttribute name)

namespace Table

open TableError (OfWrite)

variable {t : Table}

namespace Uncounted

variable {α β : Type}

theorem iff_failsWithin {x : Except TableError α} :
    Uncounted x ↔ FailsWithin (fun cause => ∀ count, cause ≠ .tooManyEntries count) x :=
  ⟨fun hx _ fails count counted => hx count (counted ▸ fails),
    fun hx count fails => hx _ fails count rfl⟩

theorem of_ofWrite {x : Except TableError α} (hx : FailsWithin OfWrite x) : Uncounted x :=
  iff_failsWithin.2 (hx.mono fun _ ofWrite _ counted => nomatch counted ▸ ofWrite)

theorem map {x : Except TableError α} (hx : Uncounted x) (f : α → β) :
    Uncounted (do return f (← x)) :=
  iff_failsWithin.2 ((iff_failsWithin.1 hx).map f)

theorem mapM {f : α → Except TableError β} (hf : ∀ a, Uncounted (f a)) (l : List α) :
    Uncounted (l.mapM f) :=
  iff_failsWithin.2 (.mapM (fun a => iff_failsWithin.1 (hf a)) l)

end Uncounted

/-- A key fails for its document and for its attributes only. -/
theorem failsWithin_keyOf (t : Table) (document : Document) :
    FailsWithin OfWrite (t.keyOf document) := by
  refine FailsWithin.map ?_ _
  generalize t.definition.keyNames = names
  induction names with
  | nil => exact .ok _
  | cons name names ih =>
      refine FailsWithin.bind ?_ fun entry => ih.map _
      unfold keyAttribute
      split
      · exact (FailsWithin.mapError .marshal _).map _
      · exact .error (.missingKeyAttribute _)

/-- Placeholders fail for their expressions and for their values only. -/
theorem failsWithin_substituted {α : Type} (t : Table) {x : Expressions α}
    (hx : FailsWithin OfWrite (x.run .empty).result) :
    FailsWithin OfWrite (t.substituted x).result := by
  unfold substituted
  rw [Traced.result_bind]
  refine hx.bind fun made => ?_
  rw [Traced.result_bind]
  refine FailsWithin.bind ?_ fun _ => .ok _
  exact FailsWithin.map (FailsWithin.map (.mapError .marshal _) _) _

theorem failsWithin_make {α : Type} (expression : Allocation α)
    (event : α → Registry → Option Event) (r : Registry) :
    FailsWithin OfWrite ((Expressions.make expression event).run r).result := by
  show FailsWithin OfWrite (Expressions.make expression event r).result
  unfold Expressions.make
  split
  · exact .error (.expression _)
  · exact .ok _

theorem failsWithin_condition (condition : Option Condition) (r : Registry) :
    FailsWithin OfWrite ((Expressions.condition condition).run r).result := by
  cases condition with
  | none => exact .ok _
  | some condition =>
      show FailsWithin OfWrite (Traced.result (_ >>= _))
      rw [Traced.result_bind]
      exact (failsWithin_make _ _ r).bind fun _ => .ok _

theorem failsWithin_updateExpressions (updates : UpdateTree) (condition : Option Condition) :
    FailsWithin OfWrite ((updateExpressions updates condition).run .empty).result := by
  show FailsWithin OfWrite (Traced.result (_ >>= _))
  rw [Traced.result_bind]
  refine FailsWithin.bind ?_ fun made => ?_
  · show FailsWithin OfWrite (Traced.result (_ >>= _))
    rw [Traced.result_bind]
    exact (failsWithin_make _ _ _).bind fun _ => .ok _
  · show FailsWithin OfWrite (Traced.result (_ >>= _))
    rw [Traced.result_bind]
    exact (failsWithin_condition condition made.2).bind fun _ => .ok _

/-- A single write fails for its values and expressions only. How many entries there are is no
concern of it. -/
theorem failsWithin_writeAlone (t : Table) (returned : Option ReturnValue) (write : SingleWrite) :
    FailsWithin OfWrite (t.writeAlone returned write).result := by
  cases write with
  | delete entry =>
      rw [← congrFun (transactDelete_eq returned) entry]
      unfold transactDelete
      rw [Traced.result_bind]
      refine (t.failsWithin_keyOf entry.item).bind fun _ => ?_
      rw [Traced.result_bind]
      exact (t.failsWithin_substituted (failsWithin_condition _ _)).bind fun _ => .ok _
  | put entry =>
      rw [← congrFun (transactPut_eq returned) entry]
      unfold transactPut
      rw [Traced.result_bind]
      refine (t.failsWithin_substituted (failsWithin_condition _ _)).bind fun _ => ?_
      rw [Traced.result_bind]
      exact (FailsWithin.mapError .marshal _).bind fun _ => .ok _
  | update entry =>
      rw [← congrFun (transactUpdate_eq returned) entry]
      unfold transactUpdate
      rw [Traced.result_bind]
      refine (t.failsWithin_keyOf entry.key).bind fun _ => ?_
      rw [Traced.result_bind]
      exact (t.failsWithin_substituted (failsWithin_updateExpressions _ _)).bind fun _ => .ok _

/-- A single write has no number of entries to fail for, so that such a failure is that of the
transaction. -/
theorem uncounted_writeAlone (t : Table) (returned : Option ReturnValue) (write : SingleWrite) :
    Uncounted (t.writeAlone returned write).result :=
  .of_ofWrite (t.failsWithin_writeAlone returned write)

/-! ### Transactions -/

/-- A transaction fails for the number of its entries exactly when it has more than a hundred, and
then before any of them is looked at. Otherwise it fails when one of its writes cannot be built
alone, with the error of the first such write, and when all can be built, its entries are these
writes. The writes are taken in the order in which the transaction sends them, first deletes, then
puts and then updates. -/
theorem transactWriteRequest_agrees (t : Table) (w : Transaction)
    (returned : Option ReturnValue) :
    ((∃ count, (t.transactWriteRequest w).result = .error (.tooManyEntries count)) ↔
        100 < w.size) ∧
      (100 < w.size → t.transactWriteRequest w = throw (.tooManyEntries w.size)) ∧
      (w.size ≤ 100 →
        (∀ cause, (t.transactWriteRequest w).result = .error cause ↔
          FailsFirst (fun write => (t.writeAlone returned write).result) w.writes cause) ∧
        ∀ entries, (t.transactWriteRequest w).result = .ok ⟨entries⟩ ↔
          w.writes.map (fun write => (t.writeAlone returned write).result) =
            entries.map .ok) := by
  -- the request is made write by write, and each is made as it would be alone
  have result (small : w.size ≤ 100) : (t.transactWriteRequest w).result =
      (w.writes.mapM fun write => (t.writeAlone returned write).result).map .mk := by
    rw [transactWriteRequest_eq small returned, Traced.result_bind, Traced.result_mapM]
    rfl
  refine ⟨⟨?_, ?_⟩, transactWriteRequest_of_lt, fun small => ⟨fun cause => ?_, fun entries => ?_⟩⟩
  · rintro ⟨count, fails⟩
    -- no single write fails for the number of writes
    refine Nat.lt_of_not_le fun small => ?_
    rw [result small] at fails
    exact (Uncounted.mapM (t.uncounted_writeAlone returned) w.writes).map _ count fails
  · intro large
    exact ⟨w.size, congrArg Traced.result (transactWriteRequest_of_lt large)⟩
  · rw [result small, except_map_error_iff, except_mapM_error_iff]
  · rw [result small, ← except_mapM_ok_iff]
    constructor
    · intro succeeds
      obtain ⟨built, made, same⟩ := exists_of_except_map succeeds
      cases same
      exact made
    · intro made
      rw [made]
      rfl

/-- A delete and an update with conditions, each with placeholders of its own, and the same writes
behind a put whose condition tests nothing, before the update loses its key. -/
theorem transactWriteRequest_agrees_delete_update :
    ∃ (t : Table) (w : Transaction) (entries : List TransactWriteEntry) (cause : TableError),
      w.size ≤ 100 ∧ (t.transactWriteRequest w).result = .ok ⟨entries⟩ ∧
      entries.flatMap (fun entry => (entry.delete.bind (·.condition)).toList ++
        (entry.update.bind (·.condition)).toList) = ["#attr0 = :val1", "#attr2 = :val3"] ∧
      w.writes.map (fun write => (t.writeAlone none write).result) = entries.map .ok ∧
      FailsFirst (fun write => (t.writeAlone none write).result)
        (Transaction.mk w.deletes [⟨[], some (.test .present)⟩]
          (w.updates.map fun update => ⟨[], update.updates, update.condition⟩)).writes cause := by
  let t : Table := ⟨.new "users" "id", .json, {}⟩
  let test : Option Condition := some (.field "age" (.compareWith .eq (.bool true)))
  let update : ConditionalUpdate := ⟨[("id", .string "b")], [("name", .assign .null)], test⟩
  have made : (t.transactWriteRequest ⟨[⟨[("id", .string "a")], test⟩], [], [update]⟩).result =
      .ok _ := rfl
  have refused : (t.transactWriteRequest ⟨[⟨[("id", .string "a")], test⟩],
      [⟨[], some (.test .present)⟩], [⟨[], update.updates, test⟩]⟩).result =
      .error (.expression (.leafWithoutPath "attribute_exists")) := rfl
  obtain ⟨-, -, agrees⟩ := t.transactWriteRequest_agrees _ none
  obtain ⟨-, -, agrees'⟩ := t.transactWriteRequest_agrees _ none
  exact ⟨t, _, _, _, by decide, made, by decide, ((agrees (by decide)).2 _).1 made,
    ((agrees' (by decide)).1 _).1 refused⟩

end Table

end DocumentTable
