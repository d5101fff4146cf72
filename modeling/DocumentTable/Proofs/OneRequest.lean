import DocumentTable.Proofs.Calls

/-!
# Calls that send one request

Most calls build a request, send it and read the response. What such a call returns, and what state
it leaves the client in, is told by the answer of the client to that request.

## Main definitions

* `Table.SendsOne`: an exchange that sends one request and reads the response
* `Table.sendBuilt`: sends a request, once it is built
* `Table.readReturned`: what the response to an update is read as

## Main results

* `Table.sendsOne_put`, `Table.sendsOne_delete`, `Table.sendsOne_set`: a write sends one request
* `Table.sendsOne_transactWrite`: so does a transaction
* `Table.put_eq_sendBuilt`, `Table.delete_eq_sendBuilt`, `Table.transactWrite_eq_sendBuilt`: a write
  is a request that is built and then sent
-/

namespace DocumentTable

open Exchange

namespace Table

variable {σ α β : Type} {client : Client σ} {t : Table} {op : Operation} {r : op.Request}

/-- An exchange that sends one request and reads the response. -/
structure SendsOne (client : Client σ) (x : Exchange σ TableError β) (op : Operation)
    (r : op.Request) (read : op.Response → Except TableError β) : Prop where
  result_eq (s : σ) : x.result s = ((client.send op r).result s).mapError .service >>= read
  after_eq (s : σ) : x.after s = (client.send op r).after s

/-- What follows the request leaves the client alone, and only makes something of the response. -/
theorem sendsOne_send (op : Operation) (r : op.Request)
    {tail : op.Response → Exchange σ TableError β} {read : op.Response → Except TableError β}
    (result : ∀ response s, (tail response).result s = read response)
    (after : ∀ response s, (tail response).after s = s) :
    SendsOne client (t.send client op r >>= tail) op r read where
  result_eq s := by
    rw [result_bind, result_send]
    exact congrArg _ (funext fun response => result response _)
  after_eq s := by
    rw [after_bind, after_send]
    split
    · exact after _ _
    · rfl

/-- What precedes the request leaves the client alone. It has to succeed, as nothing is sent
otherwise. -/
theorem SendsOne.ofTraced_bind {x : Traced TableError α} {a : α} (succeeds : x.result = .ok a)
    {f : α → Exchange σ TableError β} {read : op.Response → Except TableError β}
    (sends : SendsOne client (f a) op r read) : SendsOne client (ofTraced x >>= f) op r read where
  result_eq s := (result_ofTraced_bind_of_ok succeeds f s).trans (sends.result_eq s)
  after_eq s := (after_ofTraced_bind_of_ok succeeds f s).trans (sends.after_eq s)

theorem SendsOne.discard {x : Exchange σ TableError β} {read : op.Response → Except TableError β}
    (sends : SendsOne client x op r read) :
    SendsOne client (Functor.discard x) op r (fun response => (read response).map fun _ => ()) where
  result_eq s := by
    rw [result_discard, sends.result_eq]
    cases ((client.send op r).result s).mapError TableError.service <;> rfl
  after_eq s := by rw [after_discard, sends.after_eq]

theorem sendsOne_discard_send (t : Table) (client : Client σ) (op : Operation) (r : op.Request) :
    SendsOne client (Functor.discard (t.send client op r)) op r fun _ => .ok () where
  result_eq s := by
    rw [result_discard, result_send]
    cases (client.send op r).result s <;> rfl
  after_eq s := by rw [after_discard, after_send]

/-! ### Requests that are built and sent -/

/-- Sends a request, once it is built, and forgets the response. -/
def sendBuilt (t : Table) (client : Client σ) (op : Operation)
    (request : Traced TableError op.Request) : Exchange σ TableError Unit :=
  ofTraced request >>= fun r => Functor.discard (t.send client op r)

/-- A request that can be built is sent, and that is all that is sent. -/
theorem sendsOne_sendBuilt (t : Table) (client : Client σ) {request : Traced TableError op.Request}
    (built : request.result = .ok r) :
    SendsOne client (t.sendBuilt client op request) op r fun _ => .ok () :=
  .ofTraced_bind built (t.sendsOne_discard_send client op r)

/-- A request that cannot be built is not sent, and the client is left as it was. -/
theorem sendBuilt_of_error (t : Table) (client : Client σ) {request : Traced TableError op.Request}
    {cause : TableError} (fails : request.result = .error cause) (s : σ) :
    (t.sendBuilt client op request).result s = .error cause ∧
      (t.sendBuilt client op request).after s = s := by
  unfold sendBuilt
  rw [result_bind, after_ofTraced_bind, result_ofTraced, fails]
  exact ⟨rfl, rfl⟩

theorem ofTraced_bind_assoc {γ : Type} (x : Traced TableError α) (f : α → Traced TableError β)
    (g : β → Exchange σ TableError γ) :
    (ofTraced x >>= fun a => ofTraced (f a) >>= g) = ofTraced (x >>= f) >>= g := by
  rw [← bind_assoc]
  congr
  funext s
  obtain ⟨events, result⟩ := x
  cases result <;> rfl

/-- A put builds a request of its document and sends it. -/
theorem put_eq_sendBuilt (t : Table) (client : Client σ) (item : Json) (options : WriteOptions) :
    t.put client item options = t.sendBuilt client .putItem
      (.ofExcept (documentOf item) >>= fun document => t.putRequest document options) :=
  ofTraced_bind_assoc (.ofExcept (documentOf item)) _ _

/-- A delete builds a request of its key and sends it. -/
theorem delete_eq_sendBuilt (t : Table) (client : Client σ) (key : Json)
    (options : WriteOptions) :
    t.delete client key options = t.sendBuilt client .deleteItem
      (.ofExcept (documentOf key) >>= fun document => t.deleteRequest document options) :=
  ofTraced_bind_assoc (.ofExcept (documentOf key)) _ _

/-- A transaction of writes builds one request of all of them, reports that and sends it. -/
theorem transactWrite_eq_sendBuilt (t : Table) (client : Client σ) (w : Transaction) :
    t.transactWrite client w = t.sendBuilt client .transactWriteItems (do
      let r ← t.transactWriteRequest w
      .report (.sendingTransaction t.name r.entries.length)
      return r) := by
  unfold sendBuilt
  rw [← ofTraced_bind_assoc]
  refine congrArg (ofTraced (t.transactWriteRequest w) >>= ·) (funext fun r => ?_)
  refine Eq.trans ?_ (ofTraced_bind_assoc (.report _) (fun _ => pure r) _)
  refine congrArg (ofTraced (.report _) >>= ·) (funext fun _ => ?_)
  exact (pure_bind r fun r => Functor.discard (t.send client .transactWriteItems r)).symm

/-! ### Writes -/

theorem sendsOne_put {item : Json} {document : Document} {options : WriteOptions}
    {r : Request.PutItem} (documented : documentOf item = .ok document)
    (made : (t.putRequest document options).result = .ok r) :
    SendsOne client (t.put client item options) .putItem r fun _ => .ok () :=
  .ofTraced_bind (x := .ofExcept (documentOf item)) documented
    (.ofTraced_bind made (t.sendsOne_discard_send client .putItem r))

theorem sendsOne_delete {key : Json} {document : Document} {options : WriteOptions}
    {r : Request.DeleteItem} (documented : documentOf key = .ok document)
    (made : (t.deleteRequest document options).result = .ok r) :
    SendsOne client (t.delete client key options) .deleteItem r fun _ => .ok () :=
  .ofTraced_bind (x := .ofExcept (documentOf key)) documented
    (.ofTraced_bind made (t.sendsOne_discard_send client .deleteItem r))

theorem sendsOne_transactWrite {w : Transaction} {r : Request.TransactWriteItems}
    (made : (t.transactWriteRequest w).result = .ok r) :
    SendsOne client (t.transactWrite client w) .transactWriteItems r fun _ => .ok () :=
  .ofTraced_bind made
    (.ofTraced_bind (x := .report _) rfl (t.sendsOne_discard_send client .transactWriteItems r))

variable [FromDocument α]

/-- What the response to an update is read as. -/
def readReturned (t : Table) (response : Response.UpdateItem) : Except TableError (Option α) :=
  match response.attributes with
  | none => .ok none
  | some [] => .ok none
  | some attributes => (t.decode attributes).map some

/-- An update sends one request and reads the attributes that it returns. -/
theorem sendsOne_set {key : Json} {document : Document} {updates : UpdateTree}
    {options : SetOptions} {r : Request.UpdateItem} (documented : documentOf key = .ok document)
    (made : (t.updateRequest document updates options).result = .ok r) :
    SendsOne client (t.set (α := α) client key updates options) .updateItem r t.readReturned := by
  refine .ofTraced_bind (x := .ofExcept (documentOf key)) documented (.ofTraced_bind made
    (sendsOne_send .updateItem r (fun response s => ?_) fun response s => ?_))
  · unfold readReturned
    cases response.attributes with
    | none => rfl
    | some attributes =>
        cases attributes with
        | nil => rfl
        | cons entry rest =>
            refine (result_bind (ofTraced (.ofExcept (t.decode (entry :: rest)))) _ s).trans ?_
            rw [result_ofTraced]
            show t.decode (entry :: rest) >>= _ = (t.decode (entry :: rest)).map some
            cases t.decode (α := α) (entry :: rest) <;> rfl
  · cases response.attributes with
    | none => rfl
    | some attributes =>
        cases attributes with
        | nil => rfl
        | cons entry rest =>
            refine (after_ofTraced_bind (.ofExcept (t.decode (entry :: rest))) _ s).trans ?_
            split <;> rfl

end Table

end DocumentTable
