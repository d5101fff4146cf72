import DocumentTable.Wire.Schema

/-!
# Entries of batches and transactions

## Main definitions

* `KeysRead`, `WriteEntry`: what a batch reads or writes in one table
* `TransactReadEntry`, `TransactWriteEntry`: reads and writes of a transaction
* `TransactReadResult`: what a transaction reads
-/

namespace DocumentTable

/-- The keys to read from one table and what to read of their items. -/
structure KeysRead where
  keys : List Item
  /-- The attributes to retrieve; all of them when unset. -/
  projection : Option String := none
  /-- The attribute names behind placeholders. -/
  names : Dict String := []
  /-- Whether the read is strongly consistent. -/
  consistentRead : Option Bool := none
  deriving DecidableEq

/-- The codec of batch reads of one table. -/
def KeysRead.codec : Codec KeysRead :=
  .record "KeysAndAttributes"
    (.cons (.required "Keys" Item.codec.list) <|
     .cons (.optional "ProjectionExpression" .text) <|
     .cons (.dictOrNothing "ExpressionAttributeNames" .text) <|
     .cons (.optional "ConsistentRead" .flag) .nil)
    (fun r => (r.keys, r.projection, r.names, r.consistentRead, ()))
    (fun (keys, projection, names, consistentRead, _) => ⟨keys, projection, names, consistentRead⟩)

/-- A put of a batch. -/
structure PutEntry where
  /-- The whole item. -/
  item : Item
  deriving DecidableEq

/-- The codec of put entries. -/
def PutEntry.codec : Codec PutEntry :=
  .record "PutRequest"
    (.cons (.required "Item" Item.codec) .nil)
    (fun r => (r.item, ()))
    (fun (item, _) => ⟨item⟩)

/-- A delete of a batch. -/
structure DeleteEntry where
  /-- The primary key of the item. -/
  key : Item
  deriving DecidableEq

/-- The codec of delete entries. -/
def DeleteEntry.codec : Codec DeleteEntry :=
  .record "DeleteRequest"
    (.cons (.required "Key" Item.codec) .nil)
    (fun r => (r.key, ()))
    (fun (key, _) => ⟨key⟩)

/-- A put or a delete of a batch; one of the two is set. -/
structure WriteEntry where
  put : Option PutEntry := none
  delete : Option DeleteEntry := none
  deriving DecidableEq

/-- The codec of batch writes. -/
def WriteEntry.codec : Codec WriteEntry :=
  .record "WriteRequest"
    (.cons (.optional "PutRequest" PutEntry.codec) <|
     .cons (.optional "DeleteRequest" DeleteEntry.codec) .nil)
    (fun r => (r.put, r.delete, ()))
    (fun (put, delete, _) => ⟨put, delete⟩)

/-- A read of a transaction. -/
structure TransactRead where
  /-- The target table. -/
  table : String
  /-- The primary key of the item. -/
  key : Item
  /-- The attributes to retrieve; all of them when unset. -/
  projection : Option String := none
  /-- The attribute names behind placeholders. -/
  names : Dict String := []
  deriving DecidableEq

/-- The codec of transact reads. -/
def TransactRead.codec : Codec TransactRead :=
  .record "Get"
    (.cons (.required "TableName" .text) <|
     .cons (.required "Key" Item.codec) <|
     .cons (.optional "ProjectionExpression" .text) <|
     .cons (.dictOrNothing "ExpressionAttributeNames" .text) .nil)
    (fun r => (r.table, r.key, r.projection, r.names, ()))
    (fun (table, key, projection, names, _) => ⟨table, key, projection, names⟩)

/-- A read as an entry of a transaction. -/
structure TransactReadEntry where
  get : TransactRead
  deriving DecidableEq

/-- The codec of transact read entries. -/
def TransactReadEntry.codec : Codec TransactReadEntry :=
  .record "TransactGetItem"
    (.cons (.required "Get" TransactRead.codec) .nil)
    (fun r => (r.get, ()))
    (fun (get, _) => ⟨get⟩)

/-- The result of a read of a transaction; empty when the item is missing. -/
structure TransactReadResult where
  item : Option Item := none
  deriving DecidableEq

/-- The codec of transact read results. -/
def TransactReadResult.codec : Codec TransactReadResult :=
  .record "ItemResponse"
    (.cons (.optional "Item" Item.codec) .nil)
    (fun r => (r.item, ()))
    (fun (item, _) => ⟨item⟩)

/-- A condition of a transaction that writes nothing. -/
structure TransactCheck where
  /-- The target table. -/
  table : String
  /-- The primary key of the item. -/
  key : Item
  /-- The condition that must hold. -/
  condition : String
  /-- The attribute names behind placeholders. -/
  names : Dict String := []
  /-- The values behind placeholders. -/
  values : Dict Attribute := []
  deriving DecidableEq

/-- The codec of transact checks. -/
def TransactCheck.codec : Codec TransactCheck :=
  .record "ConditionCheck"
    (.cons (.required "TableName" .text) <|
     .cons (.required "Key" Item.codec) <|
     .cons (.required "ConditionExpression" .text) <|
     .cons (.dictOrNothing "ExpressionAttributeNames" .text) <|
     .cons (.dictOrNothing "ExpressionAttributeValues" Attribute.codec) .nil)
    (fun r => (r.table, r.key, r.condition, r.names, r.values, ()))
    (fun (table, key, condition, names, values, _) => ⟨table, key, condition, names, values⟩)

/-- A put of a transaction. -/
structure TransactPut where
  /-- The target table. -/
  table : String
  /-- The whole item. -/
  item : Item
  /-- The condition that must hold for the write to happen. -/
  condition : Option String := none
  /-- The attribute names behind placeholders. -/
  names : Dict String := []
  /-- The values behind placeholders. -/
  values : Dict Attribute := []
  deriving DecidableEq

/-- The codec of transact puts. -/
def TransactPut.codec : Codec TransactPut :=
  .record "Put"
    (.cons (.required "TableName" .text) <|
     .cons (.required "Item" Item.codec) <|
     .cons (.optional "ConditionExpression" .text) <|
     .cons (.dictOrNothing "ExpressionAttributeNames" .text) <|
     .cons (.dictOrNothing "ExpressionAttributeValues" Attribute.codec) .nil)
    (fun r => (r.table, r.item, r.condition, r.names, r.values, ()))
    (fun (table, item, condition, names, values, _) => ⟨table, item, condition, names, values⟩)

/-- A delete of a transaction. -/
structure TransactDelete where
  /-- The target table. -/
  table : String
  /-- The primary key of the item. -/
  key : Item
  /-- The condition that must hold for the write to happen. -/
  condition : Option String := none
  /-- The attribute names behind placeholders. -/
  names : Dict String := []
  /-- The values behind placeholders. -/
  values : Dict Attribute := []
  deriving DecidableEq

/-- The codec of transact deletes. -/
def TransactDelete.codec : Codec TransactDelete :=
  .record "Delete"
    (.cons (.required "TableName" .text) <|
     .cons (.required "Key" Item.codec) <|
     .cons (.optional "ConditionExpression" .text) <|
     .cons (.dictOrNothing "ExpressionAttributeNames" .text) <|
     .cons (.dictOrNothing "ExpressionAttributeValues" Attribute.codec) .nil)
    (fun r => (r.table, r.key, r.condition, r.names, r.values, ()))
    (fun (table, key, condition, names, values, _) => ⟨table, key, condition, names, values⟩)

/-- An update of a transaction. -/
structure TransactUpdate where
  /-- The target table. -/
  table : String
  /-- The primary key of the item. -/
  key : Item
  /-- The clauses of the update. -/
  update : String
  /-- The condition that must hold for the write to happen. -/
  condition : Option String := none
  /-- The attribute names behind placeholders. -/
  names : Dict String := []
  /-- The values behind placeholders. -/
  values : Dict Attribute := []
  deriving DecidableEq

/-- The codec of transact updates. -/
def TransactUpdate.codec : Codec TransactUpdate :=
  .record "Update"
    (.cons (.required "TableName" .text) <|
     .cons (.required "Key" Item.codec) <|
     .cons (.required "UpdateExpression" .text) <|
     .cons (.optional "ConditionExpression" .text) <|
     .cons (.dictOrNothing "ExpressionAttributeNames" .text) <|
     .cons (.dictOrNothing "ExpressionAttributeValues" Attribute.codec) .nil)
    (fun r => (r.table, r.key, r.update, r.condition, r.names, r.values, ()))
    (fun (table, key, update, condition, names, values, _) =>
      ⟨table, key, update, condition, names, values⟩)

/-- A write as an entry of a transaction; one of the four is set. -/
structure TransactWriteEntry where
  check : Option TransactCheck := none
  put : Option TransactPut := none
  delete : Option TransactDelete := none
  update : Option TransactUpdate := none
  deriving DecidableEq

/-- The codec of transact write entries. -/
def TransactWriteEntry.codec : Codec TransactWriteEntry :=
  .record "TransactWriteItem"
    (.cons (.optional "ConditionCheck" TransactCheck.codec) <|
     .cons (.optional "Put" TransactPut.codec) <|
     .cons (.optional "Delete" TransactDelete.codec) <|
     .cons (.optional "Update" TransactUpdate.codec) .nil)
    (fun r => (r.check, r.put, r.delete, r.update, ()))
    (fun (check, put, delete, update, _) => ⟨check, put, delete, update⟩)

end DocumentTable
