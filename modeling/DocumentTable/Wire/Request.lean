import DocumentTable.Wire.Entry

/-!
# Requests

The bodies of all requests, with their codecs. What is unset or empty is left out, so that a request
carries only what its expressions use.
-/

namespace DocumentTable

/-- Creates a table. -/
structure Request.CreateTable where
  /-- The target table. -/
  table : String
  /-- Partition key and optional sort key. -/
  keySchema : List KeyElement
  /-- The types of all attributes that keys use. -/
  attributes : List AttributeDefinition
  billingMode : Option BillingMode := none
  /-- Required when capacity is provisioned. -/
  throughput : Option Throughput := none
  globalIndexes : List GlobalIndex := []
  localIndexes : List LocalIndex := []
  deriving DecidableEq

/-- The codec of CreateTable requests. -/
def Request.CreateTable.codec : Codec Request.CreateTable :=
  .record "CreateTableInput"
    (.cons (.required "TableName" .text) <|
     .cons (.required "KeySchema" KeyElement.codec.list) <|
     .cons (.required "AttributeDefinitions" AttributeDefinition.codec.list) <|
     .cons (.optional "BillingMode" BillingMode.codec) <|
     .cons (.optional "ProvisionedThroughput" Throughput.codec) <|
     .cons (.listOrNothing "GlobalSecondaryIndexes" GlobalIndex.codec) <|
     .cons (.listOrNothing "LocalSecondaryIndexes" LocalIndex.codec) .nil)
    (fun r =>
      (r.table, r.keySchema, r.attributes, r.billingMode, r.throughput, r.globalIndexes,
       r.localIndexes, ()))
    (fun (table, keySchema, attributes, billingMode, throughput, globalIndexes, localIndexes, _)
      =>
      ⟨table, keySchema, attributes, billingMode, throughput, globalIndexes, localIndexes⟩)

/-- Deletes a table. -/
structure Request.DeleteTable where
  /-- The target table. -/
  table : String
  deriving DecidableEq

/-- The codec of DeleteTable requests. -/
def Request.DeleteTable.codec : Codec Request.DeleteTable :=
  .record "DeleteTableInput"
    (.cons (.required "TableName" .text) .nil)
    (fun r => (r.table, ()))
    (fun (table, _) => ⟨table⟩)

/-- Stores an item. -/
structure Request.PutItem where
  /-- The target table. -/
  table : String
  /-- The whole item. -/
  item : Item
  /-- The condition that must hold for the write to happen. -/
  condition : Option String := none
  /-- The attribute names behind placeholders. -/
  names : Dict String := []
  /-- The values behind placeholders. -/
  values : Dict Attribute := []
  /-- Which attributes to return. -/
  returnValues : Option ReturnValue := none
  deriving DecidableEq

/-- The codec of PutItem requests. -/
def Request.PutItem.codec : Codec Request.PutItem :=
  .record "PutItemInput"
    (.cons (.required "TableName" .text) <|
     .cons (.required "Item" Item.codec) <|
     .cons (.optional "ConditionExpression" .text) <|
     .cons (.dictOrNothing "ExpressionAttributeNames" .text) <|
     .cons (.dictOrNothing "ExpressionAttributeValues" Attribute.codec) <|
     .cons (.optional "ReturnValues" ReturnValue.codec) .nil)
    (fun r => (r.table, r.item, r.condition, r.names, r.values, r.returnValues, ()))
    (fun (table, item, condition, names, values, returnValues, _) =>
      ⟨table, item, condition, names, values, returnValues⟩)

/-- Reads one item. -/
structure Request.GetItem where
  /-- The target table. -/
  table : String
  /-- The primary key of the item. -/
  key : Item
  /-- The attributes to retrieve; all of them when unset. -/
  projection : Option String := none
  /-- The attribute names behind placeholders. -/
  names : Dict String := []
  /-- Whether the read is strongly consistent. -/
  consistentRead : Option Bool := none
  deriving DecidableEq

/-- The codec of GetItem requests. -/
def Request.GetItem.codec : Codec Request.GetItem :=
  .record "GetItemInput"
    (.cons (.required "TableName" .text) <|
     .cons (.required "Key" Item.codec) <|
     .cons (.optional "ProjectionExpression" .text) <|
     .cons (.dictOrNothing "ExpressionAttributeNames" .text) <|
     .cons (.optional "ConsistentRead" .flag) .nil)
    (fun r => (r.table, r.key, r.projection, r.names, r.consistentRead, ()))
    (fun (table, key, projection, names, consistentRead, _) =>
      ⟨table, key, projection, names, consistentRead⟩)

/-- Changes attributes of an item. -/
structure Request.UpdateItem where
  /-- The target table. -/
  table : String
  /-- The primary key of the item. -/
  key : Item
  /-- The clauses of the update. -/
  update : String
  /-- The condition that must hold for the write to happen. -/
  condition : Option String := none
  /-- The attribute names behind placeholders. -/
  names : Dict String := []
  /-- The values behind placeholders. -/
  values : Dict Attribute := []
  /-- Which attributes to return. -/
  returnValues : Option ReturnValue := none
  deriving DecidableEq

/-- The codec of UpdateItem requests. -/
def Request.UpdateItem.codec : Codec Request.UpdateItem :=
  .record "UpdateItemInput"
    (.cons (.required "TableName" .text) <|
     .cons (.required "Key" Item.codec) <|
     .cons (.required "UpdateExpression" .text) <|
     .cons (.optional "ConditionExpression" .text) <|
     .cons (.dictOrNothing "ExpressionAttributeNames" .text) <|
     .cons (.dictOrNothing "ExpressionAttributeValues" Attribute.codec) <|
     .cons (.optional "ReturnValues" ReturnValue.codec) .nil)
    (fun r => (r.table, r.key, r.update, r.condition, r.names, r.values, r.returnValues, ()))
    (fun (table, key, update, condition, names, values, returnValues, _) =>
      ⟨table, key, update, condition, names, values, returnValues⟩)

/-- Deletes an item. -/
structure Request.DeleteItem where
  /-- The target table. -/
  table : String
  /-- The primary key of the item. -/
  key : Item
  /-- The condition that must hold for the write to happen. -/
  condition : Option String := none
  /-- The attribute names behind placeholders. -/
  names : Dict String := []
  /-- The values behind placeholders. -/
  values : Dict Attribute := []
  /-- Which attributes to return. -/
  returnValues : Option ReturnValue := none
  deriving DecidableEq

/-- The codec of DeleteItem requests. -/
def Request.DeleteItem.codec : Codec Request.DeleteItem :=
  .record "DeleteItemInput"
    (.cons (.required "TableName" .text) <|
     .cons (.required "Key" Item.codec) <|
     .cons (.optional "ConditionExpression" .text) <|
     .cons (.dictOrNothing "ExpressionAttributeNames" .text) <|
     .cons (.dictOrNothing "ExpressionAttributeValues" Attribute.codec) <|
     .cons (.optional "ReturnValues" ReturnValue.codec) .nil)
    (fun r => (r.table, r.key, r.condition, r.names, r.values, r.returnValues, ()))
    (fun (table, key, condition, names, values, returnValues, _) =>
      ⟨table, key, condition, names, values, returnValues⟩)

/-- Reads items of one partition in the order of their sort key. -/
structure Request.Query where
  /-- The target table. -/
  table : String
  /-- The secondary index to read instead of the table. -/
  index : Option String := none
  /-- The partition, and optionally a condition on the sort key. -/
  keyCondition : String
  /-- The condition that read items must meet to be returned. -/
  filter : Option String := none
  /-- The attribute names behind placeholders. -/
  names : Dict String := []
  /-- The values behind placeholders. -/
  values : Dict Attribute := []
  /-- The page size. -/
  limit : Option UInt32 := none
  /-- The cursor of an earlier page. -/
  exclusiveStartKey : Option Item := none
  /-- Whether sort keys ascend. -/
  forward : Option Bool := none
  /-- Whether the read is strongly consistent. -/
  consistentRead : Option Bool := none
  deriving DecidableEq

/-- The codec of Query requests. -/
def Request.Query.codec : Codec Request.Query :=
  .record "QueryInput"
    (.cons (.required "TableName" .text) <|
     .cons (.optional "IndexName" .text) <|
     .cons (.required "KeyConditionExpression" .text) <|
     .cons (.optional "FilterExpression" .text) <|
     .cons (.dictOrNothing "ExpressionAttributeNames" .text) <|
     .cons (.dictOrNothing "ExpressionAttributeValues" Attribute.codec) <|
     .cons (.optional "Limit" .uint32) <|
     .cons (.optional "ExclusiveStartKey" Item.codec) <|
     .cons (.optional "ScanIndexForward" .flag) <|
     .cons (.optional "ConsistentRead" .flag) .nil)
    (fun r =>
      (r.table, r.index, r.keyCondition, r.filter, r.names, r.values, r.limit,
       r.exclusiveStartKey, r.forward, r.consistentRead, ()))
    (fun (table, index, keyCondition, filter, names, values, limit, exclusiveStartKey, forward,
      consistentRead, _) =>
      ⟨table, index, keyCondition, filter, names, values, limit, exclusiveStartKey, forward,
      consistentRead⟩)

/-- Reads all items. -/
structure Request.Scan where
  /-- The target table. -/
  table : String
  /-- The secondary index to read instead of the table. -/
  index : Option String := none
  /-- The condition that read items must meet to be returned. -/
  filter : Option String := none
  /-- The attribute names behind placeholders. -/
  names : Dict String := []
  /-- The values behind placeholders. -/
  values : Dict Attribute := []
  /-- The page size. -/
  limit : Option UInt32 := none
  /-- The cursor of an earlier page. -/
  exclusiveStartKey : Option Item := none
  /-- Whether the read is strongly consistent. -/
  consistentRead : Option Bool := none
  deriving DecidableEq

/-- The codec of Scan requests. -/
def Request.Scan.codec : Codec Request.Scan :=
  .record "ScanInput"
    (.cons (.required "TableName" .text) <|
     .cons (.optional "IndexName" .text) <|
     .cons (.optional "FilterExpression" .text) <|
     .cons (.dictOrNothing "ExpressionAttributeNames" .text) <|
     .cons (.dictOrNothing "ExpressionAttributeValues" Attribute.codec) <|
     .cons (.optional "Limit" .uint32) <|
     .cons (.optional "ExclusiveStartKey" Item.codec) <|
     .cons (.optional "ConsistentRead" .flag) .nil)
    (fun r =>
      (r.table, r.index, r.filter, r.names, r.values, r.limit, r.exclusiveStartKey,
       r.consistentRead, ()))
    (fun (table, index, filter, names, values, limit, exclusiveStartKey, consistentRead, _) =>
      ⟨table, index, filter, names, values, limit, exclusiveStartKey, consistentRead⟩)

/-- Reads items by their keys. -/
structure Request.BatchGetItem where
  /-- What to read of each table. -/
  tables : Dict KeysRead
  deriving DecidableEq

/-- The codec of BatchGetItem requests. -/
def Request.BatchGetItem.codec : Codec Request.BatchGetItem :=
  .record "BatchGetItemInput"
    (.cons (.required "RequestItems" KeysRead.codec.dict) .nil)
    (fun r => (r.tables, ()))
    (fun (tables, _) => ⟨tables⟩)

/-- Puts and deletes items. -/
structure Request.BatchWriteItem where
  /-- The puts and deletes of each table. -/
  tables : Dict (List WriteEntry)
  deriving DecidableEq

/-- The codec of BatchWriteItem requests. -/
def Request.BatchWriteItem.codec : Codec Request.BatchWriteItem :=
  .record "BatchWriteItemInput"
    (.cons (.required "RequestItems" WriteEntry.codec.list.dict) .nil)
    (fun r => (r.tables, ()))
    (fun (tables, _) => ⟨tables⟩)

/-- Reads items at one point in time. -/
structure Request.TransactGetItems where
  /-- The reads; results have the same order. -/
  entries : List TransactReadEntry
  deriving DecidableEq

/-- The codec of TransactGetItems requests. -/
def Request.TransactGetItems.codec : Codec Request.TransactGetItems :=
  .record "TransactGetItemsInput"
    (.cons (.required "TransactItems" TransactReadEntry.codec.list) .nil)
    (fun r => (r.entries, ()))
    (fun (entries, _) => ⟨entries⟩)

/-- Writes items, all or none. -/
structure Request.TransactWriteItems where
  /-- The writes. -/
  entries : List TransactWriteEntry
  deriving DecidableEq

/-- The codec of TransactWriteItems requests. -/
def Request.TransactWriteItems.codec : Codec Request.TransactWriteItems :=
  .record "TransactWriteItemsInput"
    (.cons (.required "TransactItems" TransactWriteEntry.codec.list) .nil)
    (fun r => (r.entries, ()))
    (fun (entries, _) => ⟨entries⟩)

end DocumentTable
