import DocumentTable.Proofs.Exchange
import DocumentTable.Table.Calls

/-!
# What calls of a table send

A call builds its requests and sends each of them. Whatever the client keeps when it answers the
requests of a table is kept by the calls of the table.

## Main definitions

* `Table.Makes`: the requests that a table builds
* `TableCall`: the calls of a table
* `TableCall.after`: the state of a client after a call

## Main results

* `TableCall.after_keeps`: a property that survives the requests of a table survives its calls
-/

namespace DocumentTable

/-- The requests that a table builds. -/
def Table.Makes (t : Table) : (op : Operation) → op.Request → Prop
  | .createTable, r => ∃ options, t.createRequest options = r
  | .deleteTable, r => t.deleteTableRequest = r
  | .putItem, r => ∃ item options, (t.putRequest item options).result = .ok r
  | .getItem, r => ∃ key options, t.getRequest key options = .ok r
  | .updateItem, r => ∃ key updates options, (t.updateRequest key updates options).result = .ok r
  | .deleteItem, r => ∃ key options, (t.deleteRequest key options).result = .ok r
  | .query, r => ∃ index partition options, (t.queryRequest index partition options).result = .ok r
  | .scan, r => ∃ index options, (t.scanRequest index options).result = .ok r
  | .batchGetItem, r => ∃ keys options requests,
      t.batchGetRequests keys options = .ok requests ∧ r ∈ requests
  | .batchWriteItem, r => ∃ requests,
      ((∃ items, t.batchPutRequests items = .ok requests) ∨
        ∃ keys, t.batchDeleteRequests keys = .ok requests) ∧ r ∈ requests
  | .transactGetItems, r => ∃ keys, t.transactGetRequest keys = .ok r
  | .transactWriteItems, r => ∃ w, (t.transactWriteRequest w).result = .ok r

/-- A call of a table. -/
inductive TableCall : Type 1 where
  | create (options : CreateOptions)
  | drop
  | get (α : Type) [FromDocument α] (key : Json) (options : GetOptions)
  | put (item : Json) (options : WriteOptions)
  | set (α : Type) [FromDocument α] (key : Json) (updates : UpdateTree) (options : SetOptions)
  | delete (key : Json) (options : WriteOptions)
  | query (α : Type) [FromDocument α] (index : Option String) (partition : Json)
      (options : QueryOptions)
  | scan (α : Type) [FromDocument α] (index : Option String) (options : ScanOptions)
  | batchGet (α : Type) [FromDocument α] (keys : List Json) (options : GetOptions)
  | batchPut (items : List Json)
  | batchDelete (keys : List Json)
  | transactGet (α : Type) [FromDocument α] (keys : List Json)
  | transactWrite (transaction : Transaction)

variable {σ : Type} {t : Table} {client : Client σ} {P : σ → Prop}

/-- The state of a client after a call. -/
def TableCall.after (t : Table) (client : Client σ) (s : σ) : TableCall → σ
  | create options => (t.create client options).after s
  | drop => (t.drop client).after s
  | get α key options => (t.get (α := α) client key options).after s
  | put item options => (t.put client item options).after s
  | set α key updates options => (t.set (α := α) client key updates options).after s
  | delete key options => (t.delete client key options).after s
  | query α index partition options => (t.query (α := α) client index partition options).after s
  | scan α index options => (t.scan (α := α) client index options).after s
  | batchGet α keys options => (t.batchGet (α := α) client keys options).after s
  | batchPut items => (t.batchPut client items).after s
  | batchDelete keys => (t.batchDelete client keys).after s
  | transactGet α keys => (t.transactGet (α := α) client keys).after s
  | transactWrite transaction => (t.transactWrite client transaction).after s

namespace Table

open Exchange

theorem result_send (t : Table) (client : Client σ) (op : Operation) (request : op.Request)
    (s : σ) : (t.send client op request).result s =
      ((client.send op request).result s).mapError .service := by
  unfold result run send
  dsimp only
  cases (client.send op request s).1.result <;> rfl

/-- Reporting a failure changes no state: what is reported is reported about the answer. -/
theorem after_send (t : Table) (client : Client σ) (op : Operation) (request : op.Request)
    (s : σ) : (t.send client op request).after s = (client.send op request).after s := by
  unfold after run send
  dsimp only
  split <;> rfl

theorem keeps_send {op : Operation} {request : op.Request}
    (kept : (client.send op request).Keeps P) : (t.send client op request).Keeps P := by
  intro s holds
  rw [after_send]
  exact kept s holds

/-- A query keeps what its request keeps, and it sends one request at most. -/
theorem keeps_query {α : Type} [FromDocument α] {index : Option String} {partition : Json}
    {options : QueryOptions}
    (kept : ∀ r, (t.queryRequest index partition options).result = .ok r →
      (client.send .query r).Keeps P) :
    (t.query (α := α) client index partition options).Keeps P := by
  refine keeps_ofTraced_bind fun schema _ => ?_
  refine keeps_ofTraced_bind fun request made => ?_
  refine (keeps_send (kept request made)).bind fun response => ?_
  exact keeps_ofTraced_bind fun _ _ => keeps_ofTraced_bind fun _ _ => keeps_ofTraced _

/-- A scan keeps what its request keeps, and it sends one request at most. -/
theorem keeps_scan {α : Type} [FromDocument α] {index : Option String} {options : ScanOptions}
    (kept : ∀ r, (t.scanRequest index options).result = .ok r →
      (client.send .scan r).Keeps P) :
    (t.scan (α := α) client index options).Keeps P := by
  refine keeps_ofTraced_bind fun schema _ => ?_
  refine keeps_ofTraced_bind fun request made => ?_
  refine (keeps_send (kept request made)).bind fun response => ?_
  exact keeps_ofTraced_bind fun _ _ => keeps_ofTraced_bind fun _ _ => keeps_ofTraced _

/-- Batches keep what each of their requests keeps, also when one fails and the others are not sent.
-/
theorem keeps_writeBatches {requests : List Request.BatchWriteItem}
    (kept : ∀ r ∈ requests, (client.send .batchWriteItem r).Keeps P) :
    (t.writeBatches client requests).Keeps P := by
  refine Keeps.bind (Keeps.mapM fun r mem => ?_) fun _ => keeps_ofTraced _
  refine (keeps_send (kept r mem)).bind fun response => ?_
  split
  · exact keeps_ofTraced _
  · exact (keeps_ofTraced _).bind fun _ => keeps_ofTraced _

end Table

open Exchange

/-- A property that survives the requests of a table survives its calls. The cases are the calls;
none of them reaches the client in another way than by requests. -/
theorem TableCall.after_keeps
    (kept : ∀ op request, t.Makes op request → (client.send op request).Keeps P)
    (call : TableCall) {s : σ} (holds : P s) : P (call.after t client s) := by
  -- whatever a call does between its requests leaves the state of the client alone
  have sent (op : Operation) {r : op.Request} (makes : t.Makes op r) :
      (t.send client op r).Keeps P := Table.keeps_send (kept op r makes)
  cases call with
  | create options => exact (sent .createTable ⟨options, rfl⟩).discard s holds
  | drop => exact (sent .deleteTable rfl).discard s holds
  | get α key options =>
      refine keeps_ofTraced_bind (fun key _ => ?_) s holds
      refine keeps_ofTraced_bind fun request made => ?_
      refine (sent .getItem ⟨key, options, made⟩).bind fun response => ?_
      split
      · exact keeps_ofTraced _
      · exact keeps_ofTraced_bind fun _ _ => keeps_ofTraced _
  | put item options =>
      refine keeps_ofTraced_bind (fun item _ => ?_) s holds
      exact keeps_ofTraced_bind fun request made => (sent .putItem ⟨item, options, made⟩).discard
  | set α key updates options =>
      refine keeps_ofTraced_bind (fun key _ => ?_) s holds
      refine keeps_ofTraced_bind fun request made => ?_
      refine (sent .updateItem ⟨key, updates, options, made⟩).bind fun response => ?_
      split
      · exact keeps_ofTraced _
      · exact keeps_ofTraced _
      · exact keeps_ofTraced_bind fun _ _ => keeps_ofTraced _
  | delete key options =>
      refine keeps_ofTraced_bind (fun key _ => ?_) s holds
      exact keeps_ofTraced_bind fun request made => (sent .deleteItem ⟨key, options, made⟩).discard
  | query α index partition options =>
      refine Table.keeps_query (fun r made => ?_) s holds
      exact kept .query r ⟨index, partition, options, made⟩
  | scan α index options =>
      refine Table.keeps_scan (fun r made => ?_) s holds
      exact kept .scan r ⟨index, options, made⟩
  | batchGet α keys options =>
      refine keeps_ofTraced_bind (fun keys _ => ?_) s holds
      refine keeps_ofTraced_bind fun requests made => ?_
      refine Keeps.bind (Keeps.mapM fun r mem => ?_) fun _ => keeps_ofTraced _
      refine (sent .batchGetItem ⟨keys, options, requests, made, mem⟩).bind fun response => ?_
      refine keeps_ofTraced_bind fun _ _ => ?_
      split
      · exact keeps_ofTraced _
      · exact (keeps_ofTraced _).bind fun _ => keeps_ofTraced _
  | batchPut items =>
      refine keeps_ofTraced_bind (fun items _ => ?_) s holds
      refine keeps_ofTraced_bind fun requests made => Table.keeps_writeBatches fun r mem => ?_
      exact kept .batchWriteItem _ ⟨requests, .inl ⟨items, made⟩, mem⟩
  | batchDelete keys =>
      refine keeps_ofTraced_bind (fun keys _ => ?_) s holds
      refine keeps_ofTraced_bind fun requests made => Table.keeps_writeBatches fun r mem => ?_
      exact kept .batchWriteItem _ ⟨requests, .inr ⟨keys, made⟩, mem⟩
  | transactGet α keys =>
      refine keeps_ofTraced_bind (fun keys _ => ?_) s holds
      refine keeps_ofTraced_bind fun request made => ?_
      exact (sent .transactGetItems ⟨keys, made⟩).bind fun _ => keeps_ofTraced _
  | transactWrite transaction =>
      refine keeps_ofTraced_bind (fun request made => ?_) s holds
      exact (keeps_ofTraced _).bind fun _ => (sent .transactWriteItems ⟨transaction, made⟩).discard

end DocumentTable
