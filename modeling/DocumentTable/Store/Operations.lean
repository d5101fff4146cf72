import DocumentTable.Client
import DocumentTable.Store.Basic
import DocumentTable.Store.Expression

/-!
# Operations of a table in memory

The store answers every operation of the service.

## Main definitions

* `Store.handle`: the response to a request and the store after it, or the error
* `Store.client`: the store as a client

## Design notes

An operation that fails leaves the store as it was. Filters are not looked at.
-/

namespace DocumentTable

namespace Store

/-- The error of a write whose condition does not hold. -/
def conditionFailed : ServiceError :=
  .ofCode .conditionalCheckFailed "The conditional request failed"

/-- The error of a transaction in which a condition does not hold. -/
def transactionCancelled : ServiceError :=
  .ofCode .transactionCanceled <|
    "Transaction cancelled, please refer cancellation reasons for specific reasons " ++
      "[ConditionalCheckFailed]"

/-- The error of a query that names no partition. -/
def noPartition : ServiceError :=
  .ofCode .validation "Unsupported key condition"

/-- Puts an item. -/
def putItem (r : Request.PutItem) (s : Store) : Except ServiceError (Response.PutItem × Store) :=
  if holds (s.contains (s.keyOf r.item)) r.condition then .ok ({}, s.upsert r.item)
  else .error conditionFailed

/-- The item of a key after an update; a missing item starts as its key. -/
def updated (s : Store) (key : Item) (update : String) (names : Dict String)
    (values : Dict Attribute) : Item :=
  applyUpdate update names values ((s.lookup key).getD key)

/-- Updates an item and returns it, as it was before or as it is after, as asked for. -/
def updateItem (r : Request.UpdateItem) (s : Store) :
    Except ServiceError (Response.UpdateItem × Store) :=
  let existing := s.lookup r.key
  if holds existing.isSome r.condition then
    let item := s.updated r.key r.update r.names r.values
    let attributes :=
      match r.returnValues.getD .nothing with
      | .nothing => none
      | .allOld | .updatedOld => existing
      | .allNew | .updatedNew => some item
    .ok ({ attributes }, s.upsert item)
  else .error conditionFailed

/-- Deletes an item. -/
def deleteItem (r : Request.DeleteItem) (s : Store) :
    Except ServiceError (Response.DeleteItem × Store) :=
  if holds (s.contains r.key) r.condition then .ok ({}, s.remove r.key)
  else .error conditionFailed

/-- The number of items, as responses count them. -/
def countOf (items : List Item) : UInt32 :=
  .ofNat (min items.length (UInt32.size - 1))

/-- Reads a page of a partition. -/
def query (r : Request.Query) (s : Store) : Except ServiceError Response.Query :=
  match partitionOf r.keyCondition r.names r.values with
  | none => .error noPartition
  | some (name, value) =>
    let items := s.items.filter fun item => Dict.get? item name == some value
    let items := if r.forward = some false then items.reverse else items
    let (items, lastEvaluatedKey) := s.page items r.exclusiveStartKey r.limit
    .ok { items, count := countOf items, scannedCount := countOf items, lastEvaluatedKey }

/-- Reads a page of all items. -/
def scan (r : Request.Scan) (s : Store) : Response.Scan :=
  let (items, lastEvaluatedKey) := s.page s.items r.exclusiveStartKey r.limit
  { items, count := countOf items, scannedCount := countOf items, lastEvaluatedKey }

/-- Makes a write of a batch. -/
def write (s : Store) (entry : WriteEntry) : Store :=
  match entry.put, entry.delete with
  | some put, _ => s.upsert put.item
  | none, some delete => s.remove delete.key
  | none, none => s

/-- Makes the writes of a batch up to the capacity, and returns the others. -/
def writeAll (s : Store) (entries : List WriteEntry) : List WriteEntry × Store :=
  match s.writeCapacity with
  | none => ([], entries.foldl write s)
  | some capacity => (entries.drop capacity, (entries.take capacity).foldl write s)

/-- Makes the writes of the batches of tables. -/
def writeTables (s : Store) : Dict (List WriteEntry) → Dict (List WriteEntry) × Store
  | [] => ([], s)
  | (table, entries) :: rest =>
    let (left, s) := s.writeAll entries
    let (others, s) := s.writeTables rest
    (if left.isEmpty then others else (table, left) :: others, s)

/-- Whether the condition of an entry of a transaction holds. -/
def permits (s : Store) (entry : TransactWriteEntry) : Bool :=
  match entry.put, entry.delete, entry.update with
  | some put, _, _ => holds (s.contains (s.keyOf put.item)) put.condition
  | none, some delete, _ => holds (s.contains delete.key) delete.condition
  | none, none, some update => holds (s.contains update.key) update.condition
  | none, none, none => true

/-- Makes a write of a transaction. -/
def transact (s : Store) (entry : TransactWriteEntry) : Store :=
  match entry.delete, entry.put, entry.update with
  | some delete, _, _ => s.remove delete.key
  | none, some put, _ => s.upsert put.item
  | none, none, some update =>
    s.upsert (s.updated update.key update.update update.names update.values)
  | none, none, none => s

/-- Makes the writes of a transaction in order, when all conditions hold before the first one. -/
def transactWriteItems (r : Request.TransactWriteItems) (s : Store) :
    Except ServiceError (Response.TransactWriteItems × Store) :=
  if r.entries.all s.permits then .ok ({}, r.entries.foldl transact s)
  else .error transactionCancelled

/-- What is read back of a new table. -/
def describe (r : Request.CreateTable) : TableDescription where
  name := some r.table
  status := some "ACTIVE"
  keySchema := r.keySchema
  itemCount := some 0

/-- The response to a request and the store after it. -/
def handle : (op : Operation) → op.Request → Store → Except ServiceError (op.Response × Store)
  | .createTable, r, s => .ok ({ description := some (describe r) }, s)
  | .deleteTable, _, s => .ok ({}, { s with items := [] })
  | .putItem, r, s => s.putItem r
  | .getItem, r, s => .ok ({ item := s.lookup r.key }, s)
  | .updateItem, r, s => s.updateItem r
  | .deleteItem, r, s => s.deleteItem r
  | .query, r, s => do return (← s.query r, s)
  | .scan, r, s => .ok (s.scan r, s)
  | .batchGetItem, r, s =>
    .ok ({ found := r.tables.mapValues fun read => read.keys.filterMap s.lookup }, s)
  | .batchWriteItem, r, s =>
    let (unprocessed, s) := s.writeTables r.tables
    .ok ({ unprocessed }, s)
  | .transactGetItems, r, s =>
    .ok ({ results := r.entries.map fun entry => { item := s.lookup entry.get.key } }, s)
  | .transactWriteItems, r, s => s.transactWriteItems r

/-- The store with a further request received. -/
def receive (s : Store) (call : Call) : Store :=
  { s with received := s.received ++ [call] }

/-- The store as a client. A prepared failure takes the place of the next answer. -/
def client : Client Store where
  send op request s :=
    let s := s.receive ⟨op, request⟩
    match s.failure with
    | some cause => (throw cause, { s with failure := none })
    | none =>
      match s.handle op request with
      | .ok (response, s) => (pure response, s)
      | .error cause => (throw cause, s)

end Store

end DocumentTable
