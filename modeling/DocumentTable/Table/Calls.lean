import DocumentTable.Client
import DocumentTable.Table.Requests

/-!
# Calls of a table

What a program does with a table: each call builds its requests, sends them and reads the responses.

## Main definitions

* `QueryPage`, `ScanPage`, `BatchRead`, `BatchWritten`: what calls return
* `Table.get`, `Table.put`, `Table.set`, `Table.delete`: one item
* `Table.query`, `Table.scan`: pages of items
* `Table.batchGet`, `Table.batchPut`, `Table.batchDelete`: many items
* `Table.transactGet`, `Table.transactWrite`: transactions

## Design notes

Values become documents and requests before anything is sent. A failure of the service is reported
once, where the request was sent, and returned as it is.
-/

namespace DocumentTable

/-- A page of a query. -/
structure QueryPage (α : Type) where
  records : List α
  /-- The sort key of the last item read. -/
  lastSortKey : Option Json
  /-- The cursor of the next page. -/
  next : Option Cursor

/-- A page of a scan. -/
structure ScanPage (α : Type) where
  records : List α
  /-- The partition key of the last item read. -/
  lastPartitionKey : Option Json
  /-- The sort key of the last item read. -/
  lastSortKey : Option Json
  /-- The cursor of the next page. -/
  next : Option Cursor

/-- The items found of a batch of keys, and the keys that were not looked at. -/
structure BatchRead (α : Type) where
  records : List α := []
  unprocessed : List Item := []

/-- The writes of a batch that did not happen. -/
structure BatchWritten where
  unprocessed : List WriteEntry := []

/-- Whether all writes happened. -/
def BatchWritten.isComplete (w : BatchWritten) : Bool :=
  w.unprocessed.isEmpty

namespace Table

variable {σ α : Type}

/-- The document of a value. -/
def documentOf (value : Json) : Except TableError Document :=
  (Document.ofJson value).mapError .marshal

/-- The documents of values. The first one at fault decides. -/
def documentsOf (values : List Json) : Except TableError (List Document) :=
  values.mapM documentOf

/-- The record of a stored item. -/
def decode (t : Table) [FromDocument α] (item : Item) : Except TableError α := do
  let document ← t.decodeItem item
  (FromDocument.read document).mapError .unreadable

/-- The records of stored items. The first one at fault decides. -/
def decodeAll (t : Table) [FromDocument α] (items : List Item) : Except TableError (List α) :=
  items.mapM t.decode

/-- Sends a request. A failure is reported and returned. -/
def send (t : Table) (client : Client σ) (op : Operation) (request : op.Request) :
    Exchange σ TableError op.Response := fun state =>
  let (answer, state) := client.send op request state
  match answer.result with
  | .ok response => (⟨answer.events, .ok response⟩, state)
  | .error cause =>
    (⟨answer.events ++ [.requestFailed t.name op cause], .error (.service cause)⟩, state)

/-- Creates the table with its indexes. -/
def create (t : Table) (client : Client σ) (options : CreateOptions) :
    Exchange σ TableError Unit := do
  discard <| t.send client .createTable (t.createRequest options)

/-- Deletes the table. -/
def drop (t : Table) (client : Client σ) : Exchange σ TableError Unit := do
  discard <| t.send client .deleteTable t.deleteTableRequest

/-- The item of a key, if there is one. -/
def get (t : Table) (client : Client σ) [FromDocument α] (key : Json) (options : GetOptions) :
    Exchange σ TableError (Option α) := do
  let request ← t.getRequest (← documentOf key) options
  let response ← t.send client .getItem request
  match response.item with
  | none => return none
  | some item => return some (← t.decode item)

/-- Stores an item. -/
def put (t : Table) (client : Client σ) (item : Json) (options : WriteOptions) :
    Exchange σ TableError Unit := do
  let request ← t.putRequest (← documentOf item) options
  discard <| t.send client .putItem request

/-- Changes attributes of the item of a key and returns those that were asked for, unless there are
none. -/
def set (t : Table) (client : Client σ) [FromDocument α] (key : Json) (updates : UpdateTree)
    (options : SetOptions) : Exchange σ TableError (Option α) := do
  let request ← t.updateRequest (← documentOf key) updates options
  let response ← t.send client .updateItem request
  match response.attributes with
  | none => return none
  | some [] => return none
  | some attributes => return some (← t.decode attributes)

/-- Deletes the item of a key. -/
def delete (t : Table) (client : Client σ) (key : Json) (options : WriteOptions) :
    Exchange σ TableError Unit := do
  let request ← t.deleteRequest (← documentOf key) options
  discard <| t.send client .deleteItem request

/-- The key of the last item of a page as a document. -/
def lastOf (t : Table) : Option Item → Except TableError (Option Document)
  | none => .ok none
  | some key => do return some (← t.decodeItem key)

/-- A page of one partition of the table or of an index. -/
def query (t : Table) (client : Client σ) [FromDocument α] (index : Option String)
    (partition : Json) (options : QueryOptions) : Exchange σ TableError (QueryPage α) := do
  let schema ← t.schema index
  let request ← t.queryRequest index partition options
  let response ← t.send client .query request
  let records ← t.decodeAll response.items
  let last ← t.lastOf response.lastEvaluatedKey
  return {
    records
    lastSortKey := do Dict.get? (← last) (← schema.sortKey)
    next := response.lastEvaluatedKey.map Cursor.mk }

/-- A page of the table or of an index. -/
def scan (t : Table) (client : Client σ) [FromDocument α] (index : Option String)
    (options : ScanOptions) : Exchange σ TableError (ScanPage α) := do
  let schema ← t.schema index
  let request ← t.scanRequest index options
  let response ← t.send client .scan request
  let records ← t.decodeAll response.items
  let last ← t.lastOf response.lastEvaluatedKey
  return {
    records
    lastPartitionKey := do Dict.get? (← last) schema.partitionKey
    lastSortKey := do Dict.get? (← last) (← schema.sortKey)
    next := response.lastEvaluatedKey.map Cursor.mk }

/-- Sends one batch of reads. -/
def readBatch (t : Table) (client : Client σ) [FromDocument α] (request : Request.BatchGetItem) :
    Exchange σ TableError (BatchRead α) := do
  let response ← t.send client .batchGetItem request
  let records ← t.decodeAll ((Dict.get? response.found t.name).getD [])
  match Dict.get? response.unprocessed t.name with
  | none => return { records }
  | some rest =>
    Exchange.report (.keysUnprocessed t.name rest.keys.length)
    return { records, unprocessed := rest.keys }

/-- The items of keys, in no particular order. -/
def batchGet (t : Table) (client : Client σ) [FromDocument α] (keys : List Json)
    (options : GetOptions) : Exchange σ TableError (BatchRead α) := do
  let keys ← documentsOf keys
  let requests ← t.batchGetRequests keys options
  let batches : List (BatchRead α) ← requests.mapM (t.readBatch client)
  return ⟨batches.flatMap BatchRead.records, batches.flatMap BatchRead.unprocessed⟩

/-- Sends one batch of writes and returns those that did not happen. -/
def writeBatch (t : Table) (client : Client σ) (request : Request.BatchWriteItem) :
    Exchange σ TableError (List WriteEntry) := do
  let response ← t.send client .batchWriteItem request
  match Dict.get? response.unprocessed t.name with
  | none => return []
  | some rest =>
    Exchange.report (.writesUnprocessed t.name rest.length)
    return rest

/-- Sends batches of writes. -/
def writeBatches (t : Table) (client : Client σ) (requests : List Request.BatchWriteItem) :
    Exchange σ TableError BatchWritten := do
  return ⟨(← requests.mapM (t.writeBatch client)).flatten⟩

/-- Stores items. -/
def batchPut (t : Table) (client : Client σ) (items : List Json) :
    Exchange σ TableError BatchWritten := do
  let items ← documentsOf items
  t.writeBatches client (← t.batchPutRequests items)

/-- Deletes the items of keys. -/
def batchDelete (t : Table) (client : Client σ) (keys : List Json) :
    Exchange σ TableError BatchWritten := do
  let keys ← documentsOf keys
  t.writeBatches client (← t.batchDeleteRequests keys)

/-- The items of keys at one point in time, in the order of the keys. Missing ones are left out. -/
def transactGet (t : Table) (client : Client σ) [FromDocument α] (keys : List Json) :
    Exchange σ TableError (List α) := do
  let keys ← documentsOf keys
  let request ← t.transactGetRequest keys
  let response ← t.send client .transactGetItems request
  t.decodeAll (response.results.filterMap TransactReadResult.item)

/-- Makes writes together or not at all. -/
def transactWrite (t : Table) (client : Client σ) (transaction : Transaction) :
    Exchange σ TableError Unit := do
  let request ← t.transactWriteRequest transaction
  Exchange.report (.sendingTransaction t.name request.entries.length)
  discard <| t.send client .transactWriteItems request

/-- Stores items together or not at all. -/
def transactPutAll (t : Table) (client : Client σ) (puts : List ConditionalItem) :
    Exchange σ TableError Unit :=
  t.transactWrite client { puts }

/-- Deletes the items of keys together or not at all. -/
def transactDeleteAll (t : Table) (client : Client σ) (deletes : List ConditionalItem) :
    Exchange σ TableError Unit :=
  t.transactWrite client { deletes }

end Table

end DocumentTable
