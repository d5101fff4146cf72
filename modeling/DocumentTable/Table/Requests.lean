import DocumentTable.Chunks
import DocumentTable.Condition.Compile
import DocumentTable.Table.Basic
import DocumentTable.Table.Options
import DocumentTable.Traced

/-!
# Requests of a table

From calls in terms of documents, conditions and updates to the requests that the service reads.

## Main definitions

* `Expressions`: a computation that makes the expressions of one request
* `Table.substituted`: the expressions of one request with what their placeholders stand for
* `Table.getRequest`, `Table.putRequest`, `Table.updateRequest`, `Table.deleteRequest`
* `Table.queryRequest`, `Table.scanRequest`
* `Table.batchGetRequests`, `Table.batchPutRequests`, `Table.batchDeleteRequests`
* `Table.transactGetRequest`, `Table.transactWriteRequest`

## Design notes

All expressions of a request share one registry. Entries of a transaction have one each.
-/

namespace DocumentTable

/-- What the placeholders of a request stand for. -/
structure Substitutions where
  names : Dict String
  values : Dict Attribute
  deriving DecidableEq

/-- A computation that makes the expressions of one request. -/
abbrev Expressions := StateT Registry (Traced TableError)

namespace Expressions

variable {α : Type}

/-- Makes an expression and reports it. -/
def make (expression : Allocation α) (event : α → Registry → Option Event) : Expressions α :=
  fun registry =>
    match expression.run.run registry with
    | (.error cause, _) => throw (.expression cause)
    | (.ok clause, registry) =>
      ⟨(event clause registry).toList, .ok (clause, registry)⟩

/-- The text of a condition, if there is one. -/
def condition : Option Condition → Expressions (Option String)
  | none => return none
  | some condition => do
    let clause ← make condition.compile fun clause registry => some (clause.event registry)
    return some clause.text

/-- The text of an update. -/
def update (tree : UpdateTree) : Expressions String := do
  let clauses ← make tree.compile fun clauses _ => some clauses.event
  return clauses.text

/-- The text of a key condition. Its test of the sort key is reported as a condition. -/
def keyCondition (key : KeyCondition) : Expressions String := do
  let clause ← make key.compile fun clause registry =>
    clause.sort.map fun sort => sort.event registry
  return clause.text

end Expressions

/-- The text of a projection with what its placeholders stand for, unless all attributes are
wanted. -/
def projection (paths : List Path) : Option String × Dict String :=
  if paths.isEmpty then (none, [])
  else
    let (placed, registry) := (Registry.placePaths paths).run .empty
    (some (projectionText placed), registry.nameDict)

namespace Table

/-- What the placeholders of a registry stand for. Values are encoded in the order they were given
out. -/
def substitutions (t : Table) (registry : Registry) : Except TableError Substitutions := do
  let entries := registry.values.map fun (placeholder, value) => (placeholder.text, value)
  return ⟨registry.nameDict, ← t.encodeEntries entries⟩

/-- The expressions of one request with what their placeholders stand for. -/
def substituted {α : Type} (t : Table) (expressions : Expressions α) :
    Traced TableError (α × Substitutions) := do
  let (value, registry) ← expressions.run .empty
  return (value, ← t.substitutions registry)

/-- Whether a read says that it is strongly consistent. -/
def consistency (t : Table) (requested : Option Bool) : Option Bool :=
  requested.or (if t.settings.consistentRead then some true else none)

/-- The request that creates the table. -/
def createRequest (t : Table) (options : CreateOptions) : Request.CreateTable :=
  t.definition.createRequest options

/-- The request that deletes the table. -/
def deleteTableRequest (t : Table) : Request.DeleteTable where
  table := t.name

/-- The request that reads the item of a key. -/
def getRequest (t : Table) (key : Document) (options : GetOptions) :
    Except TableError Request.GetItem := do
  let (projection, names) := projection options.projection
  return {
    table := t.name
    key := ← t.keyOf key
    projection
    names
    consistentRead := t.consistency options.consistentRead }

/-- The request that stores an item. -/
def putRequest (t : Table) (item : Document) (options : WriteOptions) :
    Traced TableError Request.PutItem := do
  let (condition, ⟨names, values⟩) ← t.substituted (Expressions.condition options.condition)
  return { table := t.name, item := ← t.encodeItem item, condition, names, values }

/-- The texts of an update and of its condition, which share their placeholders. -/
def updateExpressions (updates : UpdateTree) (condition : Option Condition) :
    Expressions (String × Option String) := do
  let update ← Expressions.update updates
  return (update, ← Expressions.condition condition)

/-- The request that changes the item of a key. -/
def updateRequest (t : Table) (key : Document) (updates : UpdateTree) (options : SetOptions) :
    Traced TableError Request.UpdateItem := do
  let key ← t.keyOf key
  let ((update, condition), ⟨names, values⟩) ←
    t.substituted (updateExpressions updates options.condition)
  let returned := options.returnValue.getD t.settings.returnValue
  return { table := t.name, key, update, condition, names, values, returnValues := some returned }

/-- The request that deletes the item of a key. -/
def deleteRequest (t : Table) (key : Document) (options : WriteOptions) :
    Traced TableError Request.DeleteItem := do
  let key ← t.keyOf key
  let (condition, ⟨names, values⟩) ← t.substituted (Expressions.condition options.condition)
  return { table := t.name, key, condition, names, values }

/-- The test of the sort key of a query, with the name of the sort key. -/
def sortTest (t : Table) (schema : KeySchema) :
    Option SortTest → Except TableError (Option (String × SortTest))
  | none => .ok none
  | some test =>
    match schema.sortKey with
    | some name => .ok (some (name, test))
    | none => .error (.noSortKey (t.scope schema))

/-- Where a query starts: at its cursor, or behind a sort key of its partition. -/
def queryStart (t : Table) (schema : KeySchema) (partition : Json) (options : QueryOptions) :
    Except TableError (Option Item) :=
  match options.start, options.fromSortKey with
  | some cursor, _ => .ok (some cursor.key)
  | none, none => .ok none
  | none, some sort =>
    match schema.sortKey with
    | none => .error (.noSortKey (t.scope schema))
    | some name => do
      return some (← t.encodeEntries [(schema.partitionKey, partition), (name, sort)])

/-- The texts of the key condition and of the filter of a query. -/
def queryExpressions (key : KeyCondition) (filter : Option Condition) :
    Expressions (String × Option String) := do
  let key ← Expressions.keyCondition key
  return (key, ← Expressions.condition filter)

/-- The request that reads a page of one partition of the table or of an index. -/
def queryRequest (t : Table) (index : Option String) (partition : Json) (options : QueryOptions) :
    Traced TableError Request.Query := do
  let schema ← t.schema index
  let sort ← t.sortTest schema options.sortKey
  let start ← t.queryStart schema partition options
  let ((keyCondition, filter), ⟨names, values⟩) ←
    t.substituted (queryExpressions ⟨schema.partitionKey, partition, sort⟩ options.filter)
  return {
    table := t.name
    index := schema.index
    keyCondition, filter, names, values
    limit := options.pageSize
    exclusiveStartKey := start
    forward := some !options.descending
    consistentRead := t.consistency options.consistentRead }

/-- Where a scan starts: at its cursor, or behind a key, which has to be whole. -/
def scanStart (t : Table) (schema : KeySchema) (options : ScanOptions) :
    Except TableError (Option Item) :=
  match options.start with
  | some cursor => .ok (some cursor.key)
  | none =>
    match schema.sortKey, options.fromPartitionKey, options.fromSortKey with
    | _, none, none => .ok none
    | some name, some partition, some sort => do
      return some (← t.encodeEntries [(schema.partitionKey, partition), (name, sort)])
    | some _, _, _ => .error .incompleteStartKey
    | none, _, some _ => .error (.noSortKey (t.scope schema))
    | none, some partition, none => do
      return some (← t.encodeEntries [(schema.partitionKey, partition)])

/-- The request that reads a page of the table or of an index. -/
def scanRequest (t : Table) (index : Option String) (options : ScanOptions) :
    Traced TableError Request.Scan := do
  let schema ← t.schema index
  let start ← t.scanStart schema options
  let (filter, ⟨names, values⟩) ← t.substituted (Expressions.condition options.filter)
  return {
    table := t.name
    index := schema.index
    filter, names, values
    limit := options.pageSize
    exclusiveStartKey := start
    consistentRead := t.consistency options.consistentRead }

/-- The requests that read the items of keys. -/
def batchGetRequests (t : Table) (keys : List Document) (options : GetOptions) :
    Except TableError (List Request.BatchGetItem) := do
  let keys ← t.keysOf keys
  let (projection, names) := projection options.projection
  let consistentRead := t.consistency options.consistentRead
  return (chunks maxBatchGet keys).map fun keys =>
    ⟨[(t.name, { keys, projection, names, consistentRead })]⟩

/-- The requests that make writes. -/
def batchWriteRequests (t : Table) (entries : List WriteEntry) : List Request.BatchWriteItem :=
  (chunks maxBatchWrite entries).map fun entries => ⟨[(t.name, entries)]⟩

/-- The requests that store items. -/
def batchPutRequests (t : Table) (items : List Document) :
    Except TableError (List Request.BatchWriteItem) := do
  let items ← items.mapM t.encodeItem
  return t.batchWriteRequests (items.map fun item => { put := some ⟨item⟩ })

/-- The requests that delete the items of keys. -/
def batchDeleteRequests (t : Table) (keys : List Document) :
    Except TableError (List Request.BatchWriteItem) := do
  let keys ← t.keysOf keys
  return t.batchWriteRequests (keys.map fun key => { delete := some ⟨key⟩ })

/-- The request that reads the items of keys in one transaction. -/
def transactGetRequest (t : Table) (keys : List Document) :
    Except TableError Request.TransactGetItems := do
  if keys.length > maxTransaction then throw (.tooManyEntries keys.length)
  let keys ← t.keysOf keys
  return ⟨keys.map fun key => ⟨{ table := t.name, key }⟩⟩

/-- A delete of a transaction. -/
def transactDelete (t : Table) (entry : ConditionalItem) :
    Traced TableError TransactWriteEntry := do
  let key ← t.keyOf entry.item
  let (condition, ⟨names, values⟩) ← t.substituted (Expressions.condition entry.condition)
  return { delete := some { table := t.name, key, condition, names, values } }

/-- A put of a transaction. -/
def transactPut (t : Table) (entry : ConditionalItem) : Traced TableError TransactWriteEntry := do
  let (condition, ⟨names, values⟩) ← t.substituted (Expressions.condition entry.condition)
  let item ← t.encodeItem entry.item
  return { put := some { table := t.name, item, condition, names, values } }

/-- An update of a transaction. -/
def transactUpdate (t : Table) (entry : ConditionalUpdate) :
    Traced TableError TransactWriteEntry := do
  let key ← t.keyOf entry.key
  let ((update, condition), ⟨names, values⟩) ←
    t.substituted (updateExpressions entry.updates entry.condition)
  return { update := some { table := t.name, key, update, condition, names, values } }

/-- The request that makes writes in one transaction. -/
def transactWriteRequest (t : Table) (transaction : Transaction) :
    Traced TableError Request.TransactWriteItems := do
  if transaction.size > maxTransaction then throw (.tooManyEntries transaction.size)
  let deletes ← transaction.deletes.mapM t.transactDelete
  let puts ← transaction.puts.mapM t.transactPut
  let updates ← transaction.updates.mapM t.transactUpdate
  return ⟨deletes ++ puts ++ updates⟩

end Table

end DocumentTable
