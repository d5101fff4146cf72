import DocumentTable.Wire.Entry

/-!
# Responses

The bodies of all successful responses, with their codecs. The service leaves out what it has
nothing to say about.
-/

namespace DocumentTable

/-- The created table. -/
structure Response.CreateTable where
  description : Option TableDescription := none
  deriving DecidableEq

/-- The codec of CreateTable responses. -/
def Response.CreateTable.codec : Codec Response.CreateTable :=
  .record "CreateTableOutput"
    (.cons (.optional "TableDescription" TableDescription.codec) .nil)
    (fun r => (r.description, ()))
    (fun (description, _) => ⟨description⟩)

/-- The deleted table. -/
structure Response.DeleteTable where
  description : Option TableDescription := none
  deriving DecidableEq

/-- The codec of DeleteTable responses. -/
def Response.DeleteTable.codec : Codec Response.DeleteTable :=
  .record "DeleteTableOutput"
    (.cons (.optional "TableDescription" TableDescription.codec) .nil)
    (fun r => (r.description, ()))
    (fun (description, _) => ⟨description⟩)

/-- The result of storing an item. -/
structure Response.PutItem where
  /-- The attributes that the request asked for. -/
  attributes : Option Item := none
  deriving DecidableEq

/-- The codec of PutItem responses. -/
def Response.PutItem.codec : Codec Response.PutItem :=
  .record "PutItemOutput"
    (.cons (.optionalTail "Attributes" Item.codec) .nil)
    (fun r => (r.attributes, ()))
    (fun (attributes, _) => ⟨attributes⟩)

/-- The item read, unless it is missing. -/
structure Response.GetItem where
  item : Option Item := none
  deriving DecidableEq

/-- The codec of GetItem responses. -/
def Response.GetItem.codec : Codec Response.GetItem :=
  .record "GetItemOutput"
    (.cons (.optionalTail "Item" Item.codec) .nil)
    (fun r => (r.item, ()))
    (fun (item, _) => ⟨item⟩)

/-- The result of changing an item. -/
structure Response.UpdateItem where
  /-- The attributes that the request asked for. -/
  attributes : Option Item := none
  deriving DecidableEq

/-- The codec of UpdateItem responses. -/
def Response.UpdateItem.codec : Codec Response.UpdateItem :=
  .record "UpdateItemOutput"
    (.cons (.optionalTail "Attributes" Item.codec) .nil)
    (fun r => (r.attributes, ()))
    (fun (attributes, _) => ⟨attributes⟩)

/-- The result of deleting an item. -/
structure Response.DeleteItem where
  /-- The attributes that the request asked for. -/
  attributes : Option Item := none
  deriving DecidableEq

/-- The codec of DeleteItem responses. -/
def Response.DeleteItem.codec : Codec Response.DeleteItem :=
  .record "DeleteItemOutput"
    (.cons (.optionalTail "Attributes" Item.codec) .nil)
    (fun r => (r.attributes, ()))
    (fun (attributes, _) => ⟨attributes⟩)

/-- A page of items of one partition. -/
structure Response.Query where
  /-- The items of the page. -/
  items : List Item
  /-- The number of items in the page. -/
  count : UInt32
  /-- The number of items read before the filter. -/
  scannedCount : UInt32
  /-- The cursor of the next page, if there is one. -/
  lastEvaluatedKey : Option Item := none
  deriving DecidableEq

/-- The codec of Query responses. -/
def Response.Query.codec : Codec Response.Query :=
  .record "QueryOutput"
    (.cons (.withDefault "Items" Item.codec.list []) <|
     .cons (.withDefault "Count" .uint32 0) <|
     .cons (.withDefault "ScannedCount" .uint32 0) <|
     .cons (.optionalTail "LastEvaluatedKey" Item.codec) .nil)
    (fun r => (r.items, r.count, r.scannedCount, r.lastEvaluatedKey, ()))
    (fun (items, count, scannedCount, lastEvaluatedKey, _) =>
      ⟨items, count, scannedCount, lastEvaluatedKey⟩)

/-- A page of items. -/
structure Response.Scan where
  /-- The items of the page. -/
  items : List Item
  /-- The number of items in the page. -/
  count : UInt32
  /-- The number of items read before the filter. -/
  scannedCount : UInt32
  /-- The cursor of the next page, if there is one. -/
  lastEvaluatedKey : Option Item := none
  deriving DecidableEq

/-- The codec of Scan responses. -/
def Response.Scan.codec : Codec Response.Scan :=
  .record "ScanOutput"
    (.cons (.withDefault "Items" Item.codec.list []) <|
     .cons (.withDefault "Count" .uint32 0) <|
     .cons (.withDefault "ScannedCount" .uint32 0) <|
     .cons (.optionalTail "LastEvaluatedKey" Item.codec) .nil)
    (fun r => (r.items, r.count, r.scannedCount, r.lastEvaluatedKey, ()))
    (fun (items, count, scannedCount, lastEvaluatedKey, _) =>
      ⟨items, count, scannedCount, lastEvaluatedKey⟩)

/-- The items of a batch of keys. -/
structure Response.BatchGetItem where
  /-- The items found in each table. -/
  found : Dict (List Item)
  /-- The keys that were not looked at. -/
  unprocessed : Dict KeysRead := []
  deriving DecidableEq

/-- The codec of BatchGetItem responses. -/
def Response.BatchGetItem.codec : Codec Response.BatchGetItem :=
  .record "BatchGetItemOutput"
    (.cons (.withDefault "Responses" Item.codec.list.dict []) <|
     .cons (.dictOrNothing "UnprocessedKeys" KeysRead.codec) .nil)
    (fun r => (r.found, r.unprocessed, ()))
    (fun (found, unprocessed, _) => ⟨found, unprocessed⟩)

/-- The result of a batch of writes. -/
structure Response.BatchWriteItem where
  /-- The writes that did not happen. -/
  unprocessed : Dict (List WriteEntry) := []
  deriving DecidableEq

/-- The codec of BatchWriteItem responses. -/
def Response.BatchWriteItem.codec : Codec Response.BatchWriteItem :=
  .record "BatchWriteItemOutput"
    (.cons (.dictOrNothing "UnprocessedItems" WriteEntry.codec.list) .nil)
    (fun r => (r.unprocessed, ()))
    (fun (unprocessed, _) => ⟨unprocessed⟩)

/-- The items of a transaction. -/
structure Response.TransactGetItems where
  /-- One result for each read, in the same order. -/
  results : List TransactReadResult
  deriving DecidableEq

/-- The codec of TransactGetItems responses. -/
def Response.TransactGetItems.codec : Codec Response.TransactGetItems :=
  .record "TransactGetItemsOutput"
    (.cons (.withDefault "Responses" TransactReadResult.codec.list []) .nil)
    (fun r => (r.results, ()))
    (fun (results, _) => ⟨results⟩)

/-- The result of a transaction of writes. -/
structure Response.TransactWriteItems where
  deriving DecidableEq

/-- The codec of TransactWriteItems responses. -/
def Response.TransactWriteItems.codec : Codec Response.TransactWriteItems :=
  .record "TransactWriteItemsOutput"
    .nil
    (fun _ => ())
    (fun _ => ⟨⟩)

end DocumentTable
