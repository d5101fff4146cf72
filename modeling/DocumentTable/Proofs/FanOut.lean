import DocumentTable.Proofs.Elements
import DocumentTable.Proofs.OneRequest

/-!
# Calls that send many requests

A batch is as large as its caller likes, and is sent in as many requests as it takes. Whatever the
client answers, nothing is sent twice and nothing is left out, and what the answers leave undone is
returned.

## Main definitions

* `Client.recorded`: a client with a record of what is sent to it
* `Table.Outcome`: the answers to requests that are sent one after the other, and what comes of them
* `Table.Runs`: a list in parts that are not empty and not too large
* `Table.WritesInBatches`, `Table.ReadsInBatches`: what is sent for writes or for reads
* `Table.FansOut`: a call that refuses values or sends what they become

## Main results

* `Table.outcome_mapM`: requests are sent one after the other until one fails
* `Table.batches_fan_out`: what batches of puts, of deletes and of reads send and return

## Design notes

A client is asked for nothing but answers, so that what it was sent has to be recorded on the way to
it. The record changes no answer.

All values of a batch are prepared before the first request. So whether anything is sent depends on
the values alone, and what is said about requests need not mention values that are refused.
-/

namespace DocumentTable

open Exchange

/-! ### What is sent -/

/-- A request and its answer. -/
structure Sent where
  op : Operation
  request : op.Request
  answer : Except ServiceError op.Response

variable {σ α β : Type}

/-- The client with a record of what is sent to it. -/
def Client.recorded (client : Client σ) : Client (σ × List Sent) where
  send op r := fun (s, sent) =>
    let (outcome, s) := client.send op r s
    (outcome, s, sent ++ [⟨op, r, outcome.result⟩])

theorem Client.result_send_recorded (client : Client σ) (op : Operation) (r : op.Request) (s : σ)
    (sent : List Sent) :
    (client.recorded.send op r).result (s, sent) = (client.send op r).result s := rfl

/-- Recording a client adds to the record what was sent and how it was answered, and nothing else.
-/
theorem Client.after_send_recorded (client : Client σ) (op : Operation) (r : op.Request) (s : σ)
    (sent : List Sent) :
    (client.recorded.send op r).after (s, sent) =
      ((client.send op r).after s, sent ++ [⟨op, r, (client.send op r).result s⟩]) := rfl

namespace Table

variable {client : Client σ} {t : Table}

/-- The answers to requests that are sent one after the other, and what comes of them. The first
failure ends it, be it of the client or in reading. -/
inductive Outcome {op : Operation} (read : op.Response → Except TableError β) (n : Nat) :
    List (Except ServiceError op.Response) → Except TableError (List β) → Prop
  | complete (responses : List op.Response) (values : List β) (all : responses.length = n)
      (each : responses.map read = values.map .ok) :
      Outcome read n (responses.map .ok) (.ok values)
  | refused (responses : List op.Response) (values : List β) (cause : ServiceError)
      (early : responses.length < n) (each : responses.map read = values.map .ok) :
      Outcome read n (responses.map .ok ++ [.error cause]) (.error (.service cause))
  | unread (responses : List op.Response) (values : List β) (response : op.Response)
      (cause : TableError) (early : responses.length < n)
      (each : responses.map read = values.map .ok) (fails : read response = .error cause) :
      Outcome read n (responses.map .ok ++ [.ok response]) (.error cause)

/-- One more request at the start, whose response can be read. The requests behind it have the
outcome that they have alone. -/
theorem Outcome.cons {op : Operation} {read : op.Response → Except TableError β} {n : Nat}
    {answers : List (Except ServiceError op.Response)} {result : Except TableError (List β)}
    (outcome : Outcome read n answers result) {response : op.Response} {value : β}
    (first : read response = .ok value) :
    Outcome read (n + 1) (.ok response :: answers) (result.map (value :: ·)) := by
  have step {responses : List op.Response} {values : List β}
      (each : responses.map read = values.map .ok) :
      (response :: responses).map read = (value :: values).map .ok := by
    rw [List.map_cons, List.map_cons, first, each]
  cases outcome with
  | complete responses values all each =>
      exact .complete (response :: responses) (value :: values) (congrArg (· + 1) all) (step each)
  | refused responses values cause early each =>
      exact .refused (response :: responses) (value :: values) cause (Nat.succ_lt_succ early)
        (step each)
  | unread responses values unreadable cause early each fails =>
      exact .unread (response :: responses) (value :: values) unreadable cause
        (Nat.succ_lt_succ early) (step each) fails

/-- Requests are sent one after the other until one fails, by induction on the requests. -/
theorem outcome_mapM (op : Operation) {read : op.Response → Except TableError β}
    {f : op.Request → Exchange (σ × List Sent) TableError β}
    (sends : ∀ r, SendsOne client.recorded (f r) op r read) (requests : List op.Request) (s : σ)
    (sent : List Sent) :
    ∃ answers, Outcome read requests.length answers ((requests.mapM f).result (s, sent)) ∧
      ((requests.mapM f).after (s, sent)).2 =
        sent ++ List.zipWith (Sent.mk op) requests answers := by
  induction requests generalizing s sent with
  | nil => exact ⟨[], .complete [] [] rfl rfl, (List.append_nil _).symm⟩
  | cons r rest ih =>
      rw [result_mapM_cons, after_mapM_cons, (sends r).result_eq, (sends r).after_eq,
        client.result_send_recorded, client.after_send_recorded]
      cases (client.send op r).result s with
      | error cause =>
          refine ⟨[.error cause], .refused [] [] cause (Nat.succ_pos _) rfl, ?_⟩
          rw [List.zipWith_cons_cons, List.zipWith_nil_right]
          rfl
      | ok response =>
          rw [show Except.mapError TableError.service (.ok response) >>= read = read response from
            rfl]
          cases first : read response with
          | error cause =>
              refine ⟨[.ok response], .unread [] [] response cause (Nat.succ_pos _) rfl first, ?_⟩
              rw [List.zipWith_cons_cons, List.zipWith_nil_right]
          | ok value =>
              obtain ⟨answers, outcome, later⟩ :=
                ih ((client.send op r).after s) (sent ++ [⟨op, r, .ok response⟩])
              refine ⟨.ok response :: answers, outcome.cons first, later.trans ?_⟩
              rw [List.append_assoc]
              rfl

/-- The record changes no answer, and so no result. -/
theorem result_mapM_recorded (op : Operation) {read : op.Response → Except TableError β}
    {f : op.Request → Exchange σ TableError β}
    {f' : op.Request → Exchange (σ × List Sent) TableError β}
    (sends : ∀ r, SendsOne client (f r) op r read)
    (sends' : ∀ r, SendsOne client.recorded (f' r) op r read) (requests : List op.Request) (s : σ)
    (sent : List Sent) : (requests.mapM f').result (s, sent) = (requests.mapM f).result s := by
  induction requests generalizing s sent with
  | nil => rfl
  | cons r rest ih =>
      rw [result_mapM_cons, result_mapM_cons, (sends r).result_eq, (sends r).after_eq,
        (sends' r).result_eq, (sends' r).after_eq, client.result_send_recorded,
        client.after_send_recorded]
      refine congrArg _ (funext fun value => ?_)
      rw [ih]

/-- Requests are answered one after the other until one fails, and sending records this. The result
is that of the client without a record. -/
theorem exists_outcome (op : Operation) {read : op.Response → Except TableError β}
    {f : op.Request → Exchange σ TableError β}
    {f' : op.Request → Exchange (σ × List Sent) TableError β}
    (sends : ∀ r, SendsOne client (f r) op r read)
    (sends' : ∀ r, SendsOne client.recorded (f' r) op r read) (requests : List op.Request)
    (s : σ) :
    ∃ answers, Outcome read requests.length answers ((requests.mapM f).result s) ∧
      ((requests.mapM f').after (s, [])).2 = List.zipWith (Sent.mk op) requests answers := by
  obtain ⟨answers, outcome, sent⟩ := outcome_mapM op sends' requests s []
  rw [result_mapM_recorded op sends sends'] at outcome
  exact ⟨answers, outcome, sent⟩

/-! ### Batches -/

/-- What a response to a batch of writes leaves undone. -/
def writesLeft (t : Table) (response : Response.BatchWriteItem) : List WriteEntry :=
  (Dict.get? response.unprocessed t.name).getD []

/-- The items of a response to a batch of reads. -/
def itemsFound (t : Table) (response : Response.BatchGetItem) : List Item :=
  (Dict.get? response.found t.name).getD []

/-- What a response to a batch of reads leaves undone. -/
def keysLeft (t : Table) (response : Response.BatchGetItem) : List Item :=
  ((Dict.get? response.unprocessed t.name).map (·.keys)).getD []

/-- What the response to a batch of reads is read as. -/
def readFound (t : Table) [FromDocument α] (response : Response.BatchGetItem) :
    Except TableError (BatchRead α) :=
  (t.decodeAll (t.itemsFound response)).map fun records => ⟨records, t.keysLeft response⟩

theorem sendsOne_writeBatch (t : Table) (client : Client σ) (r : Request.BatchWriteItem) :
    SendsOne client (t.writeBatch client r) .batchWriteItem r
      fun response => .ok (t.writesLeft response) := by
  refine sendsOne_send .batchWriteItem r (fun response s => ?_) fun response s => ?_
  · unfold writesLeft
    cases Dict.get? response.unprocessed t.name <;> rfl
  · cases Dict.get? response.unprocessed t.name <;> rfl

theorem sendsOne_readBatch (t : Table) [FromDocument α] (client : Client σ)
    (r : Request.BatchGetItem) :
    SendsOne client (t.readBatch (α := α) client r) .batchGetItem r t.readFound := by
  refine sendsOne_send .batchGetItem r (fun response s => ?_) fun response s => ?_
  · refine (result_bind (ofTraced (.ofExcept (t.decodeAll (t.itemsFound response)))) _ s).trans ?_
    unfold readFound keysLeft
    rw [result_ofTraced]
    show t.decodeAll (t.itemsFound response) >>= _ = _
    cases t.decodeAll (α := α) (t.itemsFound response) with
    | error cause => rfl
    | ok records => cases Dict.get? response.unprocessed t.name <;> rfl
  · refine (after_ofTraced_bind (.ofExcept (t.decodeAll (t.itemsFound response))) _ s).trans ?_
    split
    · cases Dict.get? response.unprocessed t.name <;> rfl
    · rfl

/-- A list in parts that are not empty and not too large. -/
structure Runs (size : Nat) (l : List α) (parts : List (List α)) : Prop where
  flatten_eq : parts.flatten = l
  ne_nil : ∀ part ∈ parts, part ≠ []
  length_le : ∀ part ∈ parts, part.length ≤ size

/-- Cutting a list into parts of a size makes runs of that size, of which the last may be shorter.
-/
theorem runs_chunks {size : Nat} (positive : size ≠ 0) (l : List α) :
    Runs size l (chunks size l) :=
  ⟨flatten_chunks positive l, fun _ mem => (mem_chunks mem).1, fun _ mem => (mem_chunks mem).2⟩

/-- What is sent for writes and what is returned: requests for parts of the writes, in order. When
all are answered, what is returned is what the answers leave undone, and otherwise the first failure
ends it. -/
def WritesInBatches (t : Table) (entries : List WriteEntry)
    (result : Except TableError BatchWritten) (sent : List Sent) : Prop :=
  ∃ parts answers, Runs 25 entries parts ∧
    sent = List.zipWith (fun part answer => ⟨.batchWriteItem, ⟨[(t.name, part)]⟩, answer⟩)
      parts answers ∧
    ((∃ responses : List Response.BatchWriteItem, answers = responses.map .ok ∧
        responses.length = parts.length ∧ result = .ok ⟨responses.flatMap t.writesLeft⟩) ∨
      ∃ (responses : List Response.BatchWriteItem) (cause : ServiceError),
        answers = responses.map .ok ++ [.error cause] ∧ responses.length < parts.length ∧
          result = .error (.service cause))

/-- Writes are sent in batches of at most 25, in their order, and what is left over is collected. -/
theorem writesInBatches (t : Table) (client : Client σ) (entries : List WriteEntry) (s : σ) :
    t.WritesInBatches entries
      ((t.writeBatches client (t.batchWriteRequests entries)).result s)
      ((t.writeBatches client.recorded (t.batchWriteRequests entries)).after (s, [])).2 := by
  obtain ⟨answers, outcome, sent⟩ := exists_outcome .batchWriteItem
    (t.sendsOne_writeBatch client) (t.sendsOne_writeBatch client.recorded)
    (t.batchWriteRequests entries) s
  unfold writeBatches
  rw [result_bind_pure, after_bind_pure, sent]
  refine ⟨chunks maxBatchWrite entries, answers, runs_chunks (by decide) entries, ?_, ?_⟩
  · unfold batchWriteRequests
    rw [List.zipWith_map_left]
  · have count : (t.batchWriteRequests entries).length = (chunks maxBatchWrite entries).length :=
      List.length_map _
    generalize ((t.batchWriteRequests entries).mapM (t.writeBatch client)).result s = result at *
    rw [count] at outcome
    cases outcome with
    | complete responses values all each =>
        refine .inl ⟨responses, rfl, all, ?_⟩
        have same : (responses.map t.writesLeft).map (Except.ok (ε := TableError)) =
            values.map .ok := List.map_map.trans each
        obtain rfl := (List.map_inj_right fun _ _ => Except.ok.inj).1 same
        rfl
    | refused responses values cause early each =>
        exact .inr ⟨responses, cause, rfl, early, rfl⟩
    | unread responses values response cause early each fails => cases fails

/-- The request for the items of some keys. -/
def readRequest (t : Table) (options : GetOptions) (keys : List Item) : Request.BatchGetItem :=
  ⟨[(t.name, {
    keys
    projection := (projection options.projection).1
    names := (projection options.projection).2
    consistentRead := t.consistency options.consistentRead })]⟩

/-- What is sent for reads and what is returned: requests for parts of the keys, in order, all of
them alike but for the keys. When all are answered with items that can be read, these are returned
with the keys that the answers leave undone, and otherwise the first failure ends it. -/
def ReadsInBatches (t : Table) [FromDocument α] (keys : List Item) (options : GetOptions)
    (result : Except TableError (BatchRead α)) (sent : List Sent) : Prop :=
  ∃ parts answers, Runs 100 keys parts ∧
    sent = List.zipWith (fun part answer => ⟨.batchGetItem, t.readRequest options part, answer⟩)
      parts answers ∧
    ((∃ (responses : List Response.BatchGetItem) (records : List α),
        answers = responses.map .ok ∧ responses.length = parts.length ∧
          (responses.flatMap t.itemsFound).map t.decode = records.map .ok ∧
          result = .ok ⟨records, responses.flatMap t.keysLeft⟩) ∨
      (∃ (responses : List Response.BatchGetItem) (cause : ServiceError),
        answers = responses.map .ok ++ [.error cause] ∧ responses.length < parts.length ∧
          (∀ item ∈ responses.flatMap t.itemsFound, ∃ record : α, t.decode item = .ok record) ∧
          result = .error (.service cause)) ∨
      ∃ (responses : List Response.BatchGetItem) (response : Response.BatchGetItem)
          (cause : TableError),
        answers = responses.map .ok ++ [.ok response] ∧ responses.length < parts.length ∧
          FailsFirst (t.decode (α := α))
            (responses.flatMap t.itemsFound ++ t.itemsFound response) cause ∧
          result = .error cause)

/-- Responses that are read one after the other are read as their items together. -/
theorem flatMap_of_readFound [FromDocument α] {responses : List Response.BatchGetItem}
    {values : List (BatchRead α)} (each : responses.map t.readFound = values.map .ok) :
    (responses.flatMap t.itemsFound).map t.decode = (values.flatMap (·.records)).map .ok ∧
      responses.flatMap t.keysLeft = values.flatMap (·.unprocessed) := by
  induction responses generalizing values with
  | nil =>
      cases values with
      | nil => exact ⟨rfl, rfl⟩
      | cons => cases each
  | cons response rest ih =>
      cases values with
      | nil => cases each
      | cons value values =>
          obtain ⟨first, others⟩ := List.cons.inj each
          obtain ⟨records, decoded, rfl⟩ := exists_of_except_map first
          obtain ⟨items, keys⟩ := ih others
          rw [List.flatMap_cons, List.flatMap_cons, List.flatMap_cons, List.flatMap_cons,
            List.map_append, List.map_append, items, keys, except_mapM_ok_iff.1 decoded]
          exact ⟨rfl, rfl⟩

/-- Sends batches of reads. -/
def readBatches (t : Table) (client : Client σ) [FromDocument α]
    (requests : List Request.BatchGetItem) : Exchange σ TableError (BatchRead α) := do
  let batches : List (BatchRead α) ← requests.mapM (t.readBatch client)
  return ⟨batches.flatMap BatchRead.records, batches.flatMap BatchRead.unprocessed⟩

/-- Reads are sent in batches of at most 100, in their order, and what is found is collected. -/
theorem readsInBatches (t : Table) [FromDocument α] (client : Client σ) (keys : List Item)
    (options : GetOptions) (s : σ) :
    let requests := (chunks maxBatchGet keys).map (t.readRequest options)
    t.ReadsInBatches (α := α) keys options ((t.readBatches client requests).result s)
      ((t.readBatches (α := α) client.recorded requests).after (s, [])).2 := by
  intro requests
  obtain ⟨answers, outcome, sent⟩ := exists_outcome .batchGetItem
    (t.sendsOne_readBatch (α := α) client) (t.sendsOne_readBatch client.recorded) requests s
  unfold readBatches
  rw [result_bind_pure, after_bind_pure, sent]
  refine ⟨chunks maxBatchGet keys, answers, runs_chunks (by decide) keys, ?_, ?_⟩
  · exact List.zipWith_map_left
  · have count : requests.length = (chunks maxBatchGet keys).length := List.length_map _
    generalize (requests.mapM (t.readBatch (α := α) client)).result s = result at *
    rw [count] at outcome
    cases outcome with
    | complete responses values all each =>
        obtain ⟨records, left⟩ := flatMap_of_readFound each
        refine .inl ⟨responses, values.flatMap (·.records), rfl, all, records, ?_⟩
        rw [left]
        rfl
    | refused responses values cause early each =>
        obtain ⟨records, -⟩ := flatMap_of_readFound each
        refine .inr (.inl ⟨responses, cause, rfl, early, ?_, rfl⟩)
        exact exists_except_mapM_iff.1 ⟨_, except_mapM_ok_iff.2 records⟩
    | unread responses values response cause early each fails =>
        obtain ⟨records, -⟩ := flatMap_of_readFound each
        refine .inr (.inr ⟨responses, response, cause, rfl, early, ?_, rfl⟩)
        -- the items of all responses before were read, and the item at fault is one of the last
        -- response
        have read := exists_except_mapM_iff.1 ⟨_, except_mapM_ok_iff.2 records⟩
        obtain ⟨before, item, behind, split, succeed, undecoded⟩ :=
          except_mapM_error_iff.1 (except_map_error_iff.1 fails)
        refine ⟨responses.flatMap t.itemsFound ++ before, item, behind, ?_, ?_, undecoded⟩
        · rw [split, List.append_assoc]
        · exact List.forall_mem_append.2 ⟨read, succeed⟩

/-! ### Calls -/

/-- What a call for many values does. When one of the values is not storable, the call returns what
is wrong with the values and sends nothing. When all of them are storable, it sends what they
become, one item or key for each value and in the order of the values. -/
structure FansOut (t : Table) (element : Element) (values : List Json)
    (Sends : List Item → Except TableError β → List Sent → Prop) (result : Except TableError β)
    (sent : List Sent) : Prop where
  refuses : (¬∀ value ∈ values, t.Storable element value) →
    ∃ cause, t.Refuses element values cause ∧ result = .error cause ∧ sent = []
  sends : (∀ value ∈ values, t.Storable element value) →
    ∃ stored, List.Forall₂ (t.StoredAs element) values stored ∧ Sends stored result sent

/-- A call that prepares values, makes requests of them and sends these. -/
def sendPrepared {ρ : Type} (t : Table) (element : Element) (requests : List Item → List ρ)
    (send : List ρ → Exchange σ TableError β) (values : List Json) : Exchange σ TableError β := do
  let documents ← documentsOf values
  let made ← (do return requests (← documents.mapM (t.form element)) : Except TableError (List ρ))
  send made

theorem sendPrepared_eq {ρ : Type} (t : Table) (element : Element) (requests : List Item → List ρ)
    (send : List ρ → Exchange σ TableError β) (values : List Json) :
    t.sendPrepared element requests send values =
      ofTraced (.ofExcept (t.prepare element values)) >>= fun stored => send (requests stored) := by
  unfold sendPrepared prepare
  -- the requests are made of all items or of none
  cases documentsOf values with
  | error cause => rfl
  | ok documents =>
      show ofTraced (.ofExcept
          (documents.mapM (t.form element) >>= fun stored => pure (requests stored))) >>= send =
        ofTraced (.ofExcept (documents.mapM (t.form element))) >>= _
      cases documents.mapM (t.form element) <;> rfl

/-- What is prepared before anything is sent fans out as what is sent. That nothing is sent before
all values are prepared is the reason why a refused batch leaves no trace. -/
theorem fansOut_sendPrepared {ρ : Type} (t : Table) (element : Element) {values : List Json}
    {requests : List Item → List ρ}
    {Sends : List Item → Except TableError β → List Sent → Prop}
    {send : List ρ → Exchange σ TableError β}
    {send' : List ρ → Exchange (σ × List Sent) TableError β} {s : σ}
    (sends : ∀ stored, Sends stored ((send (requests stored)).result s)
      ((send' (requests stored)).after (s, [])).2) :
    t.FansOut element values Sends ((t.sendPrepared element requests send values).result s)
      ((t.sendPrepared element requests send' values).after (s, [])).2 := by
  rw [sendPrepared_eq, sendPrepared_eq, result_bind, after_ofTraced_bind, result_ofTraced,
    Traced.result_ofExcept]
  cases made : t.prepare element values with
  | error cause =>
      refine ⟨fun _ => ⟨cause, prepare_error_iff.1 made, rfl, rfl⟩, fun storable => ?_⟩
      obtain ⟨stored, prepared⟩ := exists_prepare_iff.2 storable
      cases made.symm.trans prepared
  | ok stored =>
      refine ⟨fun unstorable => ?_, fun _ => ?_⟩
      · exact absurd (exists_prepare_iff.1 ⟨stored, made⟩) unstorable
      · exact ⟨stored, map_formed_iff.1 (prepare_ok_iff.1 made), sends stored⟩

/-- Whatever a client answers, batches of puts, of deletes and of reads lose nothing and send
nothing twice. A batch of which one value is not storable is refused before the first request.
Otherwise the items or keys of the values are sent, in parts of at most 25 for writes and at most
100 for reads and in the order of the values, until one request fails. What is returned is collected
in the order of the requests. -/
theorem batches_fan_out (t : Table) (client : Client σ) (s : σ) :
    (∀ items : List Json,
      t.FansOut .item items
        (fun stored => t.WritesInBatches (stored.map fun item => { put := some ⟨item⟩ }))
        ((t.batchPut client items).result s) ((t.batchPut client.recorded items).after (s, [])).2) ∧
      (∀ keys : List Json,
        t.FansOut .key keys
          (fun stored => t.WritesInBatches (stored.map fun key => { delete := some ⟨key⟩ }))
          ((t.batchDelete client keys).result s)
          ((t.batchDelete client.recorded keys).after (s, [])).2) ∧
      ∀ (α : Type) [FromDocument α] (keys : List Json) (options : GetOptions),
        t.FansOut .key keys (fun stored => t.ReadsInBatches (α := α) stored options)
          ((t.batchGet client keys options).result s)
          ((t.batchGet (α := α) client.recorded keys options).after (s, [])).2 := by
  refine ⟨fun items => ?_, fun keys => ?_, fun α _ keys options => ?_⟩
  · exact t.fansOut_sendPrepared .item fun stored => t.writesInBatches client _ s
  · exact t.fansOut_sendPrepared .key fun stored => t.writesInBatches client _ s
  · exact t.fansOut_sendPrepared .key fun stored => t.readsInBatches client stored options s

end Table

end DocumentTable
