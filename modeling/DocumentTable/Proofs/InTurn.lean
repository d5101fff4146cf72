import DocumentTable.Proofs.EntryKey
import DocumentTable.Proofs.OneRequest

/-!
# Writes together and in turn

The writes of a transaction can also be made one after the other, each as a call of its own. When
they are about different keys, a store makes them together exactly when it refuses none of them in
turn, and then the items are the same.

## Main definitions

* `Exchange.results`, `Exchange.afterAll`: what exchanges in turn return, and the state they leave
* `Table.makeAlone`: a write as a call of its own
* `Store.Does`: a request does what an entry of a transaction says, if it is permitted
* `Table.Unread`: a call that made its update and cannot read what the update returns
* `Table.ReadsReturned`: what an update returns is a record

## Main results

* `Table.makeAlone_of_permits`, `Table.makeAlone_of_not_permits`: what a call of a write does
* `Table.results_makeAlone`: what calls of writes with different keys do
* `Table.transactWrite_eq_inTurn`: a transaction is all of its writes in turn, or nothing
* `Table.transactWrite_ne_inTurn`: a call of a write that the transaction makes may fail

## Design notes

A transaction looks at all conditions before its first write, and calls look at each condition after
the writes before it. It is the same since a write leaves the items of other keys alone.

An update that is a call of its own returns attributes, which the call reads after the store has
made the update. The entry of a transaction returns nothing. So a call may fail where the
transaction does not, although both have made the update. Calls in turn are therefore made whatever
the ones before have returned.
-/

namespace DocumentTable

/-! ### Exchanges in turn -/

namespace Exchange

variable {σ ε α : Type}

/-- What exchanges return that are made one after the other, whatever they return. -/
def results : List (Exchange σ ε α) → σ → List (Except ε α)
  | [], _ => []
  | x :: rest, s => x.result s :: results rest (x.after s)

/-- The state after exchanges that are made one after the other, whatever they return. -/
def afterAll (exchanges : List (Exchange σ ε α)) (s : σ) : σ :=
  exchanges.foldl (fun s x => x.after s) s

/-- The calls behind the first one are made where the first one has left off, whether it failed or
not. -/
theorem results_cons (x : Exchange σ ε α) (rest : List (Exchange σ ε α)) (s : σ) :
    results (x :: rest) s = x.result s :: results rest (x.after s) := rfl

/-- What calls leave is what the calls behind the first one leave. -/
theorem afterAll_cons (x : Exchange σ ε α) (rest : List (Exchange σ ε α)) (s : σ) :
    afterAll (x :: rest) s = afterAll rest (x.after s) := rfl

end Exchange

open Exchange

/-! ### Requests of one write -/

namespace Store

variable {s s' : Store} {op : Operation} {r : op.Request} {entry : TransactWriteEntry}

/-- A request does what an entry of a transaction says if the entry is permitted, and fails
otherwise. -/
def Does (op : Operation) (r : op.Request) (entry : TransactWriteEntry) : Prop :=
  ∃ respond : Store → op.Response, ∀ s : Store, s.handle op r =
    if s.permits entry then .ok (respond s, s.transact entry) else .error conditionFailed

/-- A request to delete does what the entry of a delete does. -/
theorem does_deleteItem (r : Request.DeleteItem) : Does .deleteItem r (.ofDelete r) :=
  ⟨fun _ => {}, fun _ => rfl⟩

theorem does_putItem (r : Request.PutItem) : Does .putItem r (.ofPut r) :=
  ⟨fun _ => {}, fun _ => rfl⟩

theorem does_updateItem (r : Request.UpdateItem) : Does .updateItem r (.ofUpdate r) :=
  ⟨_, fun _ => rfl⟩

/-- A request whose condition holds is answered, and the store does what the entry says. That the
request was received is all else that changes. -/
theorem Does.send_of_permits (does : Does op r entry) (calm : s.failure = none)
    (permitted : s.permits entry) :
    ∃ response, (client.send op r).result s = .ok response ∧
      (client.send op r).after s = (s.receive ⟨op, r⟩).transact entry := by
  obtain ⟨respond, handles⟩ := does
  have handled : (s.receive ⟨op, r⟩).handle op r =
      .ok (respond (s.receive ⟨op, r⟩), (s.receive ⟨op, r⟩).transact entry) :=
    (handles _).trans (if_pos permitted)
  have answered : (client.send op r).result s = .ok (respond (s.receive ⟨op, r⟩)) := by
    rw [result_send calm, handled]
    rfl
  have same := (handle_of_send answered).symm.trans handled
  exact ⟨_, answered, (Prod.mk.inj (Except.ok.inj same)).2⟩

/-- A request whose condition does not hold is refused for that. -/
theorem Does.send_of_not_permits (does : Does op r entry) (calm : s.failure = none)
    (refused : ¬ s.permits entry) : (client.send op r).result s = .error conditionFailed := by
  obtain ⟨respond, handles⟩ := does
  rw [result_send calm, show (s.receive ⟨op, r⟩).handle op r = .error conditionFailed from
    (handles _).trans (if_neg refused)]
  rfl

/-- Entries that are made one after the other make their changes one after the other. -/
theorem foldl_transact (entries : List TransactWriteEntry) (s : Store) :
    entries.foldl transact s =
      (entries.flatMap TransactWriteEntry.changes).foldl Write.apply s := by
  rw [transact_eq, List.foldl_flatMap]

/-- What an entry does to the items does not depend on the log. -/
theorem bare_transact (s : Store) (entry : TransactWriteEntry) :
    (s.transact entry).bare = s.bare.transact entry := by
  rw [transact_eq]
  exact bare_foldl _ _

/-- An entry leaves the key of the table as it is. -/
theorem keyNames_transact (s : Store) (entry : TransactWriteEntry) :
    (s.transact entry).keyNames = s.keyNames := by
  rw [transact_eq]
  exact keyNames_foldl _ _

theorem failure_transact (s : Store) (entry : TransactWriteEntry) :
    (s.transact entry).failure = s.failure := by
  obtain ⟨check, put, delete, update⟩ := entry
  cases delete <;> cases put <;> cases update <;> rfl

/-- An entry leaves no two items with one key. -/
theorem Distinct.transact (distinct : s.Distinct) (entry : TransactWriteEntry) :
    (s.transact entry).Distinct := by
  rw [transact_eq]
  exact List.foldlRecOn _ _ distinct fun _ distinct w _ => distinct.apply w

/-- A request that fails leaves the items as they are. -/
theorem bare_after_send_of_error {cause : ServiceError}
    (fails : (client.send op r).result s = .error cause) :
    ((client.send op r).after s).bare = s.bare := by
  show ((Act.send op r).after s).bare = _
  rw [Act.bare_after, Act.writes, fails]
  rfl

/-- A request that succeeds makes its writes. -/
theorem bare_after_send_of_ok {response : op.Response}
    (succeeds : (client.send op r).result s = .ok response) :
    ((client.send op r).after s).bare =
      (writesOf s.writeCapacity op r).foldl Write.apply s.bare := by
  show ((Act.send op r).after s).bare = _
  rw [Act.bare_after, Act.writes, succeeds]

theorem result_send_transactWriteItems (calm : s.failure = none)
    (r : Request.TransactWriteItems) :
    (client.send .transactWriteItems r).result s =
      if r.entries.all s.permits then .ok {} else .error transactionCancelled := by
  rw [result_send calm]
  show (transactWriteItems r _).map Prod.fst = _
  unfold transactWriteItems
  rw [show (s.receive ⟨.transactWriteItems, r⟩).permits = s.permits from rfl]
  split <;> rfl

variable {r : Request.UpdateItem} {response : Response.UpdateItem}

/-- What an update returns is an item as it was before or as it is after, if one is asked for. -/
theorem attributes_of_updateItem (succeeds : s.updateItem r = .ok (response, s')) :
    response.attributes = none ∨ r.returnValues.getD .nothing ≠ .nothing ∧
      (response.attributes = s.lookup r.key ∨
        response.attributes = some (s.updated r.key r.update r.names r.values)) := by
  unfold updateItem at succeeds
  dsimp only at succeeds
  split at succeeds <;> cases succeeds
  dsimp only
  cases r.returnValues.getD .nothing with
  | nothing => exact .inl rfl
  | allOld | updatedOld => exact .inr ⟨nofun, .inl rfl⟩
  | allNew | updatedNew => exact .inr ⟨nofun, .inr rfl⟩

/-- What an update returns is made of what the items and the request are made of. -/
theorem each_of_updateItem {Q : Attribute → Prop} {attributes : Item} (carries : s.Carries Q)
    (given : (Write.update r.key r.update r.names r.values).Carries Q)
    (succeeds : s.updateItem r = .ok (response, s'))
    (back : response.attributes = some attributes) : Each Q attributes := by
  rcases attributes_of_updateItem succeeds with missing | ⟨-, old | new⟩
  · cases missing.symm.trans back
  · exact carries.lookup (old.symm.trans back)
  · obtain rfl := Option.some.inj (new.symm.trans back)
    exact carries.updated given

end Store

/-! ### Writes as calls -/

namespace Table

variable {σ α : Type} {t : Table} {returned : Option ReturnValue}

/-- A write as a call of its own. What an update returns is its own affair. -/
def makeAlone (t : Table) (client : Client σ) (α : Type) [FromDocument α]
    (returned : Option ReturnValue) : SingleWrite → Exchange σ TableError Unit
  | .delete entry => t.delete client (.object entry.item) { condition := entry.condition }
  | .put entry => t.put client (.object entry.item) { condition := entry.condition }
  | .update entry => do
    discard <| t.set (α := α) client (.object entry.key) entry.updates
      { condition := entry.condition, returnValue := returned }

variable [FromDocument α]

/-- A call fails because what it was answered is no record. Only updates are answered with something
that is read, and the store has made the update before. -/
inductive Unread : Except TableError Unit → Prop
  | marshal (cause : MarshalError) : Unread (.error (.marshal cause))
  | unreadable (cause : ReadError) : Unread (.error (.unreadable cause))

/-- The response to an update is read, or the call fails in reading it. -/
theorem read_readReturned (t : Table) (response : Response.UpdateItem) :
    ((t.readReturned response).map fun _ : Option α => ()) = .ok () ∨
      Unread ((t.readReturned response).map fun _ : Option α => ()) := by
  unfold readReturned
  split
  · exact .inl rfl
  · exact .inl rfl
  · next attributes _ _ =>
      unfold decode decodeItem
      cases t.marshaller.decodeItem attributes with
      | error cause => exact .inr (.marshal cause)
      | ok document =>
          show ((((FromDocument.read document).mapError _).map some).map _) = _ ∨
            Unread ((((FromDocument.read document).mapError _).map some).map _)
          cases FromDocument.read (α := α) document with
          | error cause => exact .inr (.unreadable cause)
          | ok record => exact .inl rfl

theorem exists_readReturned {response : Response.UpdateItem}
    (reads : ∀ attributes, response.attributes = some attributes →
      ∃ record : α, t.decode attributes = .ok record) :
    ∃ record : Option α, t.readReturned response = .ok record := by
  unfold readReturned
  split
  · exact ⟨none, rfl⟩
  · exact ⟨none, rfl⟩
  · next attributes _ isSome =>
      obtain ⟨record, decoded⟩ := reads attributes isSome
      rw [decoded]
      exact ⟨some record, rfl⟩

/-- Each update returns nothing, or what it returns is a record. -/
def ReadsReturned (t : Table) (α : Type) [FromDocument α] (returned : Option ReturnValue)
    (s : Store) : Prop :=
  returned = some .nothing ∨
    ∃ Q, s.Carries Q ∧ (∀ a, t.marshaller.Writes a → Q a) ∧
      ∀ item, Each Q item → ∃ record : α, t.decode item = .ok record

/-- A marshaller that reads what it writes reads what updates return, where all items came from such
marshallers. -/
theorem readsReturned_of_reached {partitionKey : String} {sortKey : Option String} {s : Store}
    (reached : s.Reached t.marshaller.Reads partitionKey sortKey)
    (restores : t.marshaller.Faithful)
    (readable : ∀ document, ∃ record : α, FromDocument.read document = .ok record) :
    t.ReadsReturned α returned s := by
  refine .inr ⟨t.marshaller.Reads, reached.carries, fun a written => ?_, fun item each => ?_⟩
  · obtain ⟨value, decoded, -⟩ := restores a written
    exact ⟨value, decoded⟩
  · obtain ⟨document, decoded⟩ := exists_decodeItem_iff.2 each
    obtain ⟨record, read⟩ := readable document
    refine ⟨record, ?_⟩
    rw [decode, decoded]
    show (FromDocument.read document).mapError _ = _
    rw [read]
    rfl

/-- The response to an update is read as a record. -/
theorem exists_readReturned_of_updateItem {r : Request.UpdateItem} {key : Document}
    {updates : UpdateTree} {options : SetOptions}
    (made : (t.updateRequest key updates options).result = .ok r)
    {s s' : Store} {response : Response.UpdateItem}
    (reads : t.ReadsReturned α options.returnValue s)
    (succeeds : s.updateItem r = .ok (response, s')) :
    ∃ record : Option α, t.readReturned response = .ok record := by
  refine exists_readReturned fun attributes back => ?_
  rcases reads with nothing | ⟨Q, carries, writes, reads⟩
  · obtain ⟨_, -, made⟩ := Traced.exists_of_result_bind made
    obtain ⟨⟨⟨_, _⟩, _, _⟩, -, made⟩ := Traced.exists_of_result_bind made
    cases made
    rcases Store.attributes_of_updateItem succeeds with missing | ⟨asked, -⟩
    · cases missing.symm.trans back
    · refine absurd ?_ asked
      rw [nothing]
      rfl
  · have makes : t.Makes .updateItem r := ⟨key, updates, options, made⟩
    have given := makes.carries none _ (List.mem_singleton_self _)
    exact reads attributes (Store.each_of_updateItem carries (given.mono writes) succeeds back)

/-- The call of a write sends one request, which does what the entry says. The response is read, or
the call fails in reading it, which it does not where what updates return are records. -/
theorem exists_request_of_makeAlone {client : Client σ} {write : SingleWrite}
    {entry : TransactWriteEntry} (built : (t.writeAlone returned write).result = .ok entry) :
    ∃ op r read, SendsOne client (t.makeAlone client α returned write) op r read ∧
      Store.Does op r entry ∧ (∀ response, read response = .ok () ∨ Unread (read response)) ∧
      ∀ s s' response, t.ReadsReturned α returned s → s.handle op r = .ok (response, s') →
        read response = .ok () := by
  cases write with
  | delete w =>
      obtain ⟨r, made, isEntry⟩ := Traced.exists_of_result_bind built
      cases isEntry
      exact ⟨.deleteItem, r, _, sendsOne_delete rfl made, Store.does_deleteItem r,
        fun _ => .inl rfl, fun _ _ _ _ _ => rfl⟩
  | put w =>
      obtain ⟨r, made, isEntry⟩ := Traced.exists_of_result_bind built
      cases isEntry
      exact ⟨.putItem, r, _, sendsOne_put rfl made, Store.does_putItem r, fun _ => .inl rfl,
        fun _ _ _ _ _ => rfl⟩
  | update w =>
      obtain ⟨r, made, isEntry⟩ := Traced.exists_of_result_bind built
      cases isEntry
      refine ⟨.updateItem, r, _, (sendsOne_set rfl made).discard, Store.does_updateItem r,
        t.read_readReturned, ?_⟩
      -- only an update returns attributes
      intro s s' response reads succeeds
      obtain ⟨record, read⟩ := exists_readReturned_of_updateItem made reads succeeds
      rw [read]
      rfl

variable {write : SingleWrite} {entry : TransactWriteEntry} {s : Store}

/-- The call of a write that is permitted makes the write, even if it cannot read what the write
returns. -/
theorem makeAlone_of_permits (built : (t.writeAlone returned write).result = .ok entry)
    (calm : s.failure = none) (permitted : s.permits entry) :
    ((t.makeAlone Store.client α returned write).result s = .ok () ∨
        Unread ((t.makeAlone Store.client α returned write).result s)) ∧
      ∃ call, (t.makeAlone Store.client α returned write).after s =
        (s.receive call).transact entry := by
  obtain ⟨op, r, read, sends, does, reads, -⟩ := exists_request_of_makeAlone (α := α) built
  obtain ⟨response, answered, after⟩ := does.send_of_permits calm permitted
  refine ⟨?_, _, (sends.after_eq s).trans after⟩
  rw [sends.result_eq, answered]
  exact reads response

/-- The call of a write that is not permitted fails. -/
theorem makeAlone_of_not_permits (built : (t.writeAlone returned write).result = .ok entry)
    (calm : s.failure = none) (refused : ¬ s.permits entry) :
    (t.makeAlone Store.client α returned write).result s =
      .error (.service Store.conditionFailed) := by
  obtain ⟨op, r, read, sends, does, -, -⟩ := exists_request_of_makeAlone (α := α) built
  rw [sends.result_eq, does.send_of_not_permits calm refused]
  rfl

/-- Where what updates return are records, no call fails in reading what it was answered. -/
theorem not_unread_makeAlone (built : (t.writeAlone returned write).result = .ok entry)
    (reads : t.ReadsReturned α returned s) :
    ¬Unread ((t.makeAlone Store.client α returned write).result s) := by
  obtain ⟨op, r, read, sends, -, -, succeeds⟩ := exists_request_of_makeAlone (α := α) built
  rw [sends.result_eq]
  cases answered : (Store.client.send op r).result s with
  | error cause => exact nofun
  | ok response =>
      show ¬Unread (read response)
      rw [succeeds (s.receive ⟨op, r⟩) _ _ reads (Store.handle_of_send answered)]
      exact nofun

/-- A call of a write stores nothing that the marshaller has not written, so that what updates
return are records after the call if they were before. -/
theorem ReadsReturned.makeAlone (reads : t.ReadsReturned α returned s) (write : SingleWrite) :
    t.ReadsReturned α returned ((t.makeAlone Store.client α returned write).after s) := by
  refine reads.imp_right fun ⟨Q, carries, writes, reads⟩ => ⟨Q, ?_, writes, reads⟩
  have kept (call : TableCall) : (call.after t Store.client s).Carries Q := by
    refine call.after_keeps (fun op r makes => ?_) carries
    refine Store.keeps_send (Store.carries_ofContents Q) fun capacity w mem s carries => ?_
    exact carries.apply ((makes.carries capacity w mem).mono writes)
  cases write with
  | delete entry => exact kept (.delete _ _)
  | put entry => exact kept (.put _ _)
  | update entry =>
      have same := after_discard (t.set (α := α) Store.client (.object entry.key) entry.updates
        { condition := entry.condition, returnValue := returned }) s
      exact same ▸ kept (.set α _ _ _)

/-! ### Calls in turn -/

/-- The states in which a store refuses the call of a write for its condition only. -/
structure Ready (t : Table) (s : Store) : Prop where
  keyNames : s.keyNames = t.definition.keyNames
  calm : s.failure = none
  distinct : s.Distinct

/-- A store that is ready for calls stays so after each of them. -/
theorem Ready.transact (ready : t.Ready s) (entry : TransactWriteEntry) (call : Call) :
    t.Ready ((s.receive call).transact entry) where
  keyNames := (Store.keyNames_transact _ entry).trans ready.keyNames
  calm := (Store.failure_transact _ entry).trans ready.calm
  distinct := Store.Distinct.transact (s := s.receive call) ready.distinct entry

/-- A write of one key leaves it alone whether entries of other keys are permitted. -/
theorem all_permits_transact {entries : List TransactWriteEntry}
    (isLocal : ∀ later ∈ entry :: entries, later.Local t.definition.keyNames)
    (differ : entry.keyValues t.definition.keyNames ∉
      entries.map (·.keyValues t.definition.keyNames))
    (keyNames : s.keyNames = t.definition.keyNames) (distinct : s.Distinct) (call : Call) :
    entries.all ((s.receive call).transact entry).permits = entries.all s.permits := by
  rw [List.forall_mem_cons] at isLocal
  refine Bool.eq_iff_iff.2 ?_
  rw [List.all_eq_true, List.all_eq_true]
  refine forall₂_congr fun later mem => ?_
  have other : later.keyValues t.definition.keyNames ≠ entry.keyValues t.definition.keyNames :=
    fun same => differ (same ▸ List.mem_map_of_mem mem)
  have untouched := isLocal.1.contents_transact (s := s.receive call) keyNames distinct _ other
  have keyNames' := (Store.keyNames_transact (s.receive call) entry).trans keyNames
  rw [(isLocal.2 later mem).permits_eq keyNames' keyNames untouched]

/-- Of calls of writes with different keys the store refuses none exactly when all of them are
permitted at the start, and then it makes all of them. -/
theorem results_makeAlone {writes : List SingleWrite} {entries : List TransactWriteEntry}
    (built : List.Forall₂ (fun write entry => (t.writeAlone returned write).result = .ok entry)
      writes entries)
    (isLocal : ∀ entry ∈ entries, entry.Local t.definition.keyNames)
    (differ : (entries.map (·.keyValues t.definition.keyNames)).Nodup) (ready : t.Ready s) :
    ((∀ result ∈ results (writes.map (t.makeAlone Store.client α returned)) s,
        result = .ok () ∨ Unread result) ↔ entries.all s.permits) ∧
      (entries.all s.permits →
        (afterAll (writes.map (t.makeAlone Store.client α returned)) s).bare =
          entries.foldl Store.transact s.bare) := by
  induction built generalizing s with
  | nil => exact ⟨iff_of_true (List.forall_mem_nil _) rfl, fun _ => rfl⟩
  | @cons write entry writes entries first rest ih =>
      rw [List.map_cons, List.nodup_cons] at differ
      rw [List.map_cons, results_cons, afterAll_cons, List.forall_mem_cons, List.all_cons,
        List.foldl_cons]
      by_cases permitted : s.permits entry
      · obtain ⟨made, call, after⟩ := makeAlone_of_permits (α := α) first ready.calm permitted
        have later := ih (List.forall_mem_cons.1 isLocal).2 differ.2 (ready.transact entry call)
        rw [all_permits_transact isLocal differ.1 ready.keyNames ready.distinct,
          Store.bare_transact] at later
        rw [after, permitted, Bool.true_and, and_iff_right made]
        exact later
      · rw [makeAlone_of_not_permits first ready.calm permitted, Bool.eq_false_iff.2 permitted]
        exact ⟨iff_of_false (fun ⟨first, _⟩ => nomatch first) nofun, nofun⟩

/-- Where what updates return are records, no call of several writes fails in reading what it was
answered. -/
theorem not_unread_results {writes : List SingleWrite}
    (built : ∀ write ∈ writes, ∃ entry, (t.writeAlone returned write).result = .ok entry)
    (reads : t.ReadsReturned α returned s) :
    ∀ result ∈ results (writes.map (t.makeAlone Store.client α returned)) s, ¬Unread result := by
  induction writes generalizing s with
  | nil => exact List.forall_mem_nil _
  | cons write writes ih =>
      rw [List.forall_mem_cons] at built
      obtain ⟨⟨entry, first⟩, others⟩ := built
      exact List.forall_mem_cons.2 ⟨not_unread_makeAlone first reads,
        ih others (reads.makeAlone write)⟩

/-! ### Writes together -/

/-- When its writes are about different keys, a transaction succeeds exactly when none of its writes
is refused that are made in turn, by calls of their own. Then it leaves the same items as they do,
and otherwise it is cancelled and leaves the items as they are. A call that is not refused may still
fail in reading what its update returns. Where what updates return are records, no call does. The
store is one that requests of any kind lead to, with the key of the table and no failure prepared.
Each write can be built, and none changes the key of its own item: an update that does would move
the item to another key, which the transaction has not looked at. -/
theorem transactWrite_eq_inTurn (t : Table) (α : Type) [FromDocument α]
    (returned : Option ReturnValue) {acts : List Store.Act} {s : Store}
    (ran : s = (Store.empty t.definition.partitionKey t.definition.sortKey).run acts)
    (calm : s.failure = none) {w : Transaction} (small : w.size ≤ 100)
    (built : ∀ write ∈ w.writes, ∃ entry, (t.writeAlone returned write).result = .ok entry)
    (spares : ∀ write ∈ w.writes, write.Spares t.definition.keyNames) {keys : List Item}
    (keyed : w.writes.mapM (fun write => t.keyOf write.document) = .ok keys) (differ : keys.Nodup) :
    let together := t.transactWrite Store.client w
    let calls := w.writes.map (t.makeAlone Store.client α returned)
    (together.result s = .ok () ↔ ∀ result ∈ results calls s, result = .ok () ∨ Unread result) ∧
      (t.ReadsReturned α returned s →
        (together.result s = .ok () ↔ ∀ result ∈ results calls s, result = .ok ())) ∧
      (together.result s = .ok () → (together.after s).items = (afterAll calls s).items) ∧
      (together.result s ≠ .ok () →
        (∃ cause, together.result s = .error (.service cause) ∧
          cause.code = .transactionCanceled ∧ cause.type = "TransactionCanceledException") ∧
        (together.after s).items = s.items) := by
  intro together calls
  obtain ⟨entries, each⟩ := exists_except_mapM_iff.2 built
  have made : (t.transactWriteRequest w).result = .ok ⟨entries⟩ :=
    (((t.transactWriteRequest_agrees w returned).2.2 small).2 entries).2
      (except_mapM_ok_iff.1 each)
  have isLocal : ∀ entry ∈ entries, entry.Local t.definition.keyNames := by
    intro entry mem
    obtain ⟨write, isWrite, alone⟩ := exists_of_mem_except_mapM each mem
    exact local_of_writeAlone alone (spares write isWrite)
  have ready : t.Ready s := by
    refine ⟨?_, calm, ?_⟩
    · rw [ran]
      exact Store.keyNames_run _ acts
    · rw [ran]
      exact (Store.distinct_empty _ _).run acts
  -- in turn, each write meets the items that those before it left, but at a key that none of them
  -- changed
  obtain ⟨succeeds, leaves⟩ := results_makeAlone (α := α) (except_mapM_iff_forall₂.1 each) isLocal
    (nodup_keyValues each keyed differ) ready
  -- together, all conditions are tested on the items that there were
  have sends : SendsOne Store.client together .transactWriteItems _ _ := sendsOne_transactWrite made
  have result := sends.result_eq s
  have after := sends.after_eq s
  have answer := Store.result_send_transactWriteItems calm ⟨entries⟩
  have refusesNone : together.result s = .ok () ↔
      ∀ result ∈ results calls s, result = .ok () ∨ Unread result := by
    rw [succeeds, result, answer]
    by_cases permitted : entries.all s.permits
    · rw [if_pos permitted]
      exact iff_of_true rfl permitted
    · rw [if_neg permitted]
      exact iff_of_false nofun permitted
  refine ⟨refusesNone, fun reads => ?_, fun together => ?_, fun fails => ?_⟩
  · have read := not_unread_results built reads
    rw [refusesNone]
    exact forall₂_congr fun result mem => or_iff_left (read result mem)
  · -- requests fill the log, so that the stores are compared without it
    have permitted := succeeds.1 (refusesNone.1 together)
    rw [if_pos permitted] at answer
    have bare := Store.bare_after_send_of_ok answer
    rw [← after] at bare
    have items := congrArg Store.items (bare.trans ((leaves permitted).trans
      (Store.foldl_transact entries s.bare)).symm)
    exact items
  · have refused := mt (fun permitted => refusesNone.2 (succeeds.2 permitted)) fails
    rw [if_neg refused] at answer
    rw [answer] at result
    have bare := Store.bare_after_send_of_error answer
    rw [← after] at bare
    have items := congrArg Store.items bare
    exact ⟨⟨_, result, rfl, rfl⟩, items⟩

/-- One of three visits is deleted, one is added and one is changed, the first two under
conditions. -/
theorem transactWrite_eq_inTurn_threeVisits :
    let key (time : Json) : Document := [("time", time), ("visitor", .string "ann")]
    let w : Transaction := {
      deletes := [⟨key (.bool true), some (.field "time" (.test .present))⟩]
      puts := [⟨key (.string "noon"), some (.field "time" (.test .absent))⟩]
      updates := [⟨key .null, [("seen", .assign (.bool true))], none⟩] }
    let together := visits.transactWrite Store.client w
    let calls := w.writes.map (visits.makeAlone Store.client Json none)
    (∀ result ∈ results calls Store.threeVisits, result = .ok ()) ∧
      (together.after Store.threeVisits).items = (afterAll calls Store.threeVisits).items := by
  intro key w together calls
  obtain ⟨acts, ran⟩ := Store.reached_threeVisits.exists_run
  have reads : visits.ReadsReturned Json none Store.threeVisits := by
    refine readsReturned_of_reached (Store.reached_threeVisits.mono fun a written => ?_)
      Marshaller.faithful_json fun document => ⟨_, rfl⟩
    obtain ⟨value, decoded, -⟩ := Marshaller.faithful_json a written
    exact ⟨value, decoded⟩
  have built : ∀ write ∈ w.writes, ∃ entry, (visits.writeAlone none write).result = .ok entry :=
    List.forall_mem_cons.2 ⟨⟨_, rfl⟩, List.forall_mem_cons.2 ⟨⟨_, rfl⟩,
      List.forall_mem_singleton.2 ⟨_, rfl⟩⟩⟩
  have keyed : w.writes.mapM (fun write => visits.keyOf write.document) = .ok _ := rfl
  have spares : ∀ write ∈ w.writes, write.Spares visits.definition.keyNames := by
    decide
  have made : together.result Store.threeVisits = .ok () := by
    decide +kernel
  have agree := transactWrite_eq_inTurn visits Json none ran rfl (by decide) built spares keyed
    (by decide)
  exact ⟨(agree.2.1 reads).1 made, agree.2.2.1 made⟩

/-- A visit with an attribute that says it is a number and is none. An update of the visit makes the
transaction, but the call of the update fails in reading the visit, after it was changed. -/
theorem transactWrite_ne_inTurn :
    let item : Item := [("count", .number "abc"), ("time", .bool true), ("visitor", .string "ann")]
    let s := (Store.empty "visitor" (some "time")).run
      [.send .putItem { table := "visits", item }]
    let key : Document := [("time", .bool true), ("visitor", .string "ann")]
    let w : Transaction := { updates := [⟨key, [("seen", .assign (.bool true))], none⟩] }
    let calls := w.writes.map (visits.makeAlone Store.client Json none)
    s.failure = none ∧ w.size ≤ 100 ∧
      (∀ write ∈ w.writes, ∃ entry, (visits.writeAlone none write).result = .ok entry) ∧
      (∀ write ∈ w.writes, write.Spares visits.definition.keyNames) ∧
      (∃ keys, w.writes.mapM (fun write => visits.keyOf write.document) = .ok keys ∧
        keys.Nodup) ∧
      (visits.transactWrite Store.client w).result s = .ok () ∧
      results calls s = [.error (.marshal (.invalidNumber "abc"))] := by
  intro item s key w calls
  refine ⟨rfl, by decide, List.forall_mem_singleton.2 ⟨_, rfl⟩, by decide,
    ⟨_, rfl, List.nodup_singleton _⟩, by decide +kernel, by decide +kernel⟩

end Table

end DocumentTable
