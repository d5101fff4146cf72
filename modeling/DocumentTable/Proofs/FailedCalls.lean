import DocumentTable.Proofs.FanOut
import DocumentTable.Proofs.StoreMap
import DocumentTable.Proofs.Transaction

/-!
# Calls that fail

A store that fails a request keeps its items and remembers the request. A call of a table that fails
has sent nothing, or it has sent one request and returns what the client failed it for.

## Main definitions

* `Store.log`: the operations and the bodies that a store has received
* `Store.refusal`: the error with which a store refuses requests of an operation
* `Store.FailsCleanly`: what a request leaves of a store, in particular one that fails
* `Table.FailsOnce`: what a call that fails has sent

## Main results

* `Store.failsCleanly_send`: requests that fail change nothing but the log
* `Store.log_run`: the log of a run is that of its requests
* `Table.FailsOnce.sendBuilt`: a request that is built before it is sent fails once
* `failures_change_nothing_but_the_log`: both together, for the writes of a table

## Design notes

A failure that is prepared takes the place of the answer, so that a request that would be refused
returns the prepared failure and is not looked at.
-/

namespace DocumentTable

open Exchange

/-! ### Stores -/

namespace Store

/-- The operations and the bodies received so far. -/
def log (s : Store) : List (Operation × Json) :=
  s.received.map fun call => (call.operation, call.body)

/-- The error with which requests of an operation are refused, if they can be. -/
def refusal : Operation → Option ServiceError
  | .putItem | .updateItem | .deleteItem => some conditionFailed
  | .query => some noPartition
  | .transactWriteItems => some transactionCancelled
  | _ => none

variable {s : Store} {op : Operation} {r : op.Request} {cause : ServiceError}

/-- What the store refuses an operation for depends on the operation alone. -/
theorem refusal_of_handle (refused : s.handle op r = .error cause) : refusal op = some cause := by
  cases op with
  | putItem =>
      change s.putItem r = _ at refused
      unfold putItem at refused
      split at refused <;> cases refused
      rfl
  | updateItem =>
      change s.updateItem r = _ at refused
      unfold updateItem at refused
      dsimp only at refused
      split at refused <;> cases refused
      rfl
  | deleteItem =>
      change s.deleteItem r = _ at refused
      unfold deleteItem at refused
      split at refused <;> cases refused
      rfl
  | query =>
      change (s.query r >>= fun response => pure (response, s)) = _ at refused
      unfold query at refused
      split at refused <;> cases refused
      rfl
  | transactWriteItems =>
      change s.transactWriteItems r = _ at refused
      unfold transactWriteItems at refused
      split at refused <;> cases refused
      rfl
  -- the other operations always succeed
  | _ => cases refused

/-- A prepared failure is returned and used up, and the request that it meets does nothing else. -/
theorem send_of_failure (prepared : s.failure = some cause) (op : Operation) (r : op.Request) :
    (client.send op r).result s = .error cause ∧
      (client.send op r).after s = { s.receive ⟨op, r⟩ with failure := none } := by
  unfold client Exchange.result Exchange.after Exchange.run
  dsimp only
  rw [show (s.receive ⟨op, r⟩).failure = some cause from prepared]
  exact ⟨rfl, rfl⟩

/-- A request that is refused changes nothing but the list of requests. -/
theorem send_of_refused (calm : s.failure = none)
    (refused : (client.send op r).result s = .error cause) :
    refusal op = some cause ∧ (client.send op r).after s = s.receive ⟨op, r⟩ := by
  rw [result_send calm, except_map_error_iff] at refused
  refine ⟨refusal_of_handle refused, ?_⟩
  unfold client Exchange.after Exchange.run
  dsimp only
  rw [show (s.receive ⟨op, r⟩).failure = none from calm]
  dsimp only
  rw [refused]

@[simp] theorem received_foldl (writes : List Write) (s : Store) :
    (writes.foldl Write.apply s).received = s.received := by
  induction writes generalizing s with
  | nil => rfl
  | cons w rest ih =>
      rw [List.foldl_cons, ih]
      cases w <;> rfl

/-- Whatever comes of a request, it is received, also when a failure was prepared. -/
theorem received_send (s : Store) (op : Operation) (r : op.Request) :
    ((client.send op r).after s).received = s.received ++ [⟨op, r⟩] := by
  cases answered : (client.send op r).result s with
  | ok response =>
      rw [handle_eq_foldl (handle_of_send answered), received_foldl]
      rfl
  | error cause =>
      cases calm : s.failure with
      | none =>
          rw [(send_of_refused calm answered).2]
          rfl
      | some prepared =>
          rw [(send_of_failure calm op r).2]
          rfl

theorem log_send (s : Store) (op : Operation) (r : op.Request) :
    ((client.send op r).after s).log = s.log ++ [(op, op.requestCodec.encode r)] := by
  unfold log
  rw [received_send, List.map_append]
  rfl

/-- What a request leaves of a store: one more entry in the log, and if it fails, no more. -/
structure FailsCleanly (s : Store) (op : Operation) (r : op.Request) : Prop where
  log_eq : ((client.send op r).after s).log = s.log ++ [(op, op.requestCodec.encode r)]
  /-- A prepared failure is returned and used up. -/
  prepared : ∀ {cause}, s.failure = some cause →
    (client.send op r).result s = .error cause ∧
      (client.send op r).after s = { s.receive ⟨op, r⟩ with failure := none }
  /-- A request is refused with the error of its operation. -/
  refused : s.failure = none → ∀ {cause}, (client.send op r).result s = .error cause →
    refusal op = some cause ∧ (client.send op r).after s = s.receive ⟨op, r⟩

/-- Requests that fail change nothing but the log, for whichever of the two reasons they fail. -/
theorem failsCleanly_send (s : Store) (op : Operation) (r : op.Request) : s.FailsCleanly op r where
  log_eq := s.log_send op r
  prepared failure := send_of_failure failure op r
  refused calm _ fails := send_of_refused calm fails

/-- The requests of a run. -/
def Act.log : Act → List (Operation × Json)
  | send op r => [(op, op.requestCodec.encode r)]
  | fail _ => []
  | limit _ => []

/-- The log of a run is that of its requests, whatever comes of them, by induction on the acts. -/
theorem log_run (s : Store) (acts : List Act) :
    (s.run acts).log = s.log ++ acts.flatMap Act.log := by
  induction acts generalizing s with
  | nil => exact (List.append_nil _).symm
  | cons act rest ih =>
      have step : (act.after s).log = s.log ++ act.log := by
        cases act with
        | send op r => exact s.log_send op r
        | fail cause => exact (List.append_nil _).symm
        | limit capacity => exact (List.append_nil _).symm
      show ((act.after s).run rest).log = _
      rw [ih, step, List.flatMap_cons, List.append_assoc]

end Store

/-! ### Tables -/

namespace Table

open TableError (OfWrite)

variable {t : Table} {op : Operation}

/-- The causes that are not failures of the service. -/
def Unsent (cause : TableError) : Prop :=
  ∀ e, cause ≠ .service e

theorem unsent_of_ofWrite {cause : TableError} (ofWrite : cause.OfWrite) : Unsent cause := by
  intro e same
  subst same
  cases ofWrite

/-- What a call that fails has sent: nothing, or one request, whose failure it returns. -/
structure FailsOnce (call : ∀ {σ : Type}, Client σ → Exchange σ TableError Unit) (op : Operation) :
    Prop where
  unsent : ∀ {σ : Type} (client : Client σ) (s : σ) {cause : TableError},
    (call client).result s = .error cause → Unsent cause →
      (call client).after s = s ∧ (call client.recorded).after (s, []) = (s, [])
  sent : ∀ {σ : Type} (client : Client σ) (s : σ) {e : ServiceError},
    (call client).result s = .error (.service e) →
      ∃ r : op.Request, (client.send op r).result s = .error e ∧
        (call client).after s = (client.send op r).after s ∧
        ((call client.recorded).after (s, [])).2 = [⟨op, r, .error e⟩]

/-- A request that can be built fails for what the client fails it for, and for nothing else. -/
theorem exists_of_sendBuilt_error {σ : Type} (t : Table) (client : Client σ)
    {request : Traced TableError op.Request} {r : op.Request} (built : request.result = .ok r)
    {s : σ} {cause : TableError}
    (fails : (t.sendBuilt client op request).result s = .error cause) :
    ∃ e, (client.send op r).result s = .error e ∧ cause = .service e := by
  rw [(t.sendsOne_sendBuilt client built).result_eq] at fails
  cases answered : (client.send op r).result s with
  | ok response =>
      rw [answered] at fails
      cases fails
  | error e =>
      rw [answered] at fails
      cases fails
      exact ⟨e, rfl, rfl⟩

/-- A request that is built before it is sent fails once: either it cannot be built and nothing is
sent, or it is sent and the client fails it. The causes of both must not be mixed up, which is what
the hypothesis is for. -/
theorem FailsOnce.sendBuilt (t : Table) {request : Traced TableError op.Request}
    (builds : FailsWithin Unsent request.result) :
    FailsOnce (fun client => t.sendBuilt client op request) op := by
  constructor
  · intro σ client s cause fails unsent
    cases built : request.result with
    | error _ =>
        exact ⟨(t.sendBuilt_of_error client built s).2,
          (t.sendBuilt_of_error client.recorded built (s, [])).2⟩
    | ok r =>
        obtain ⟨e, -, isService⟩ := t.exists_of_sendBuilt_error client built fails
        exact absurd isService (unsent e)
  · intro σ client s e fails
    cases built : request.result with
    | error cause =>
        rw [(t.sendBuilt_of_error client built s).1] at fails
        exact absurd (Except.error.inj fails) (builds cause built e)
    | ok r =>
        obtain ⟨e', answered, same⟩ := t.exists_of_sendBuilt_error client built fails
        cases same
        refine ⟨r, answered, (t.sendsOne_sendBuilt client built).after_eq s, ?_⟩
        rw [(t.sendsOne_sendBuilt client.recorded built).after_eq, client.after_send_recorded,
          answered]
        rfl

/-! ### Writes -/

/-- A call that builds a write of a document and sends it fails once. What the call builds is known
by the write alone: the request is one that the write makes an entry of, so that it fails for what
the write fails for. -/
theorem failsOnce_writeAlone (t : Table) (value : Json)
    {build : Document → Traced TableError op.Request} (entry : op.Request → TransactWriteEntry)
    (write : Document → SingleWrite)
    (alone : ∀ document, t.writeAlone none (write document) = do return entry (← build document)) :
    FailsOnce (fun client => t.sendBuilt client op (.ofExcept (documentOf value) >>= build))
      op := by
  refine .sendBuilt t (FailsWithin.mono (P := OfWrite) ?_ fun _ => unsent_of_ofWrite)
  rw [Traced.result_bind]
  refine FailsWithin.bind (.mapError .marshal _) fun document => ?_
  intro cause fails
  refine t.failsWithin_writeAlone none (write document) cause ?_
  rw [alone, Traced.result_bind, fails]
  rfl

theorem failsOnce_put (t : Table) (item : Json) (options : WriteOptions) :
    FailsOnce (fun client => t.put client item options) .putItem := by
  simp only [put_eq_sendBuilt]
  exact t.failsOnce_writeAlone item .ofPut (fun document => .put ⟨document, options.condition⟩)
    fun _ => rfl

theorem failsOnce_delete (t : Table) (key : Json) (options : WriteOptions) :
    FailsOnce (fun client => t.delete client key options) .deleteItem := by
  simp only [delete_eq_sendBuilt]
  exact t.failsOnce_writeAlone key .ofDelete (fun document => .delete ⟨document, options.condition⟩)
    fun _ => rfl

/-- A transaction is too large, or it fails for one of its writes. None of this is a failure of the
client. -/
theorem failsWithin_transactWriteRequest (t : Table) (w : Transaction) :
    FailsWithin Unsent (t.transactWriteRequest w).result := by
  by_cases small : w.size ≤ maxTransaction
  · rw [transactWriteRequest_eq small none, Traced.result_bind, Traced.result_mapM]
    refine FailsWithin.bind (.mapM (fun write => ?_) _) fun _ => .ok _
    exact (t.failsWithin_writeAlone none write).mono fun _ => unsent_of_ofWrite
  · rw [transactWriteRequest_of_lt (Nat.lt_of_not_le small)]
    exact .error fun _ => nofun

theorem failsOnce_transactWrite (t : Table) (w : Transaction) :
    FailsOnce (fun client => t.transactWrite client w) .transactWriteItems := by
  simp only [transactWrite_eq_sendBuilt]
  refine .sendBuilt t ?_
  rw [Traced.result_bind]
  exact (t.failsWithin_transactWriteRequest w).bind fun _ => .ok _

end Table

/-- Requests that fail change nothing of a store but the log, and writes of a table that fail have
sent nothing, or one request, whose failure they return. This holds in every state and for every
client, so that nothing is asked of either. -/
theorem failures_change_nothing_but_the_log :
    (∀ (s : Store) (op : Operation) (r : op.Request), s.FailsCleanly op r) ∧
      ∀ t : Table,
        (∀ item options, Table.FailsOnce (fun client => t.put client item options) .putItem) ∧
        (∀ key options, Table.FailsOnce (fun client => t.delete client key options) .deleteItem) ∧
        (∀ w, Table.FailsOnce (fun client => t.transactWrite client w) .transactWriteItems) ∧
        (∀ puts,
          Table.FailsOnce (fun client => t.transactPutAll client puts) .transactWriteItems) ∧
        ∀ deletes,
          Table.FailsOnce (fun client => t.transactDeleteAll client deletes) .transactWriteItems :=
  ⟨Store.failsCleanly_send, fun t => ⟨t.failsOnce_put, t.failsOnce_delete,
    t.failsOnce_transactWrite, fun puts => t.failsOnce_transactWrite { puts },
    fun deletes => t.failsOnce_transactWrite { deletes }⟩⟩

end DocumentTable
