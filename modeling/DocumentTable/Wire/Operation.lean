import DocumentTable.Wire.Request
import DocumentTable.Wire.Response

/-!
# Operations

The operations of the service. Each one has a type of requests and a type of responses.

## Main definitions

* `Operation`: the operations
* `Operation.name`, `Operation.target`: how a request names its operation
* `Operation.Request`, `Operation.Response`: the types of bodies, with their codecs
* `Call`: an operation with its request
-/

namespace DocumentTable

/-- An operation of the service. -/
inductive Operation where
  | createTable
  | deleteTable
  | putItem
  | getItem
  | updateItem
  | deleteItem
  | query
  | scan
  | batchGetItem
  | batchWriteItem
  | transactGetItems
  | transactWriteItems
  deriving DecidableEq, Repr

/-- The media type of all bodies. -/
def contentType : String := "application/x-amz-json-1.0"

/-- The version of the service that requests address. -/
def serviceVersion : String := "DynamoDB_20120810"

namespace Operation

/-- All operations. -/
def all : List Operation :=
  [createTable, deleteTable, putItem, getItem, updateItem, deleteItem, query, scan, batchGetItem,
   batchWriteItem, transactGetItems, transactWriteItems]

/-- The name of an operation. -/
def name : Operation → String
  | createTable => "CreateTable"
  | deleteTable => "DeleteTable"
  | putItem => "PutItem"
  | getItem => "GetItem"
  | updateItem => "UpdateItem"
  | deleteItem => "DeleteItem"
  | query => "Query"
  | scan => "Scan"
  | batchGetItem => "BatchGetItem"
  | batchWriteItem => "BatchWriteItem"
  | transactGetItems => "TransactGetItems"
  | transactWriteItems => "TransactWriteItems"

/-- The header that names the operation of a request. -/
def target (op : Operation) : String :=
  serviceVersion ++ "." ++ op.name

/-- The requests of an operation. -/
abbrev Request : Operation → Type
  | createTable => DocumentTable.Request.CreateTable
  | deleteTable => DocumentTable.Request.DeleteTable
  | putItem => DocumentTable.Request.PutItem
  | getItem => DocumentTable.Request.GetItem
  | updateItem => DocumentTable.Request.UpdateItem
  | deleteItem => DocumentTable.Request.DeleteItem
  | query => DocumentTable.Request.Query
  | scan => DocumentTable.Request.Scan
  | batchGetItem => DocumentTable.Request.BatchGetItem
  | batchWriteItem => DocumentTable.Request.BatchWriteItem
  | transactGetItems => DocumentTable.Request.TransactGetItems
  | transactWriteItems => DocumentTable.Request.TransactWriteItems

/-- The responses of an operation. -/
abbrev Response : Operation → Type
  | createTable => DocumentTable.Response.CreateTable
  | deleteTable => DocumentTable.Response.DeleteTable
  | putItem => DocumentTable.Response.PutItem
  | getItem => DocumentTable.Response.GetItem
  | updateItem => DocumentTable.Response.UpdateItem
  | deleteItem => DocumentTable.Response.DeleteItem
  | query => DocumentTable.Response.Query
  | scan => DocumentTable.Response.Scan
  | batchGetItem => DocumentTable.Response.BatchGetItem
  | batchWriteItem => DocumentTable.Response.BatchWriteItem
  | transactGetItems => DocumentTable.Response.TransactGetItems
  | transactWriteItems => DocumentTable.Response.TransactWriteItems

/-- The codec of the requests of an operation. -/
def requestCodec : (op : Operation) → Codec op.Request
  | createTable => DocumentTable.Request.CreateTable.codec
  | deleteTable => DocumentTable.Request.DeleteTable.codec
  | putItem => DocumentTable.Request.PutItem.codec
  | getItem => DocumentTable.Request.GetItem.codec
  | updateItem => DocumentTable.Request.UpdateItem.codec
  | deleteItem => DocumentTable.Request.DeleteItem.codec
  | query => DocumentTable.Request.Query.codec
  | scan => DocumentTable.Request.Scan.codec
  | batchGetItem => DocumentTable.Request.BatchGetItem.codec
  | batchWriteItem => DocumentTable.Request.BatchWriteItem.codec
  | transactGetItems => DocumentTable.Request.TransactGetItems.codec
  | transactWriteItems => DocumentTable.Request.TransactWriteItems.codec

/-- The codec of the responses of an operation. -/
def responseCodec : (op : Operation) → Codec op.Response
  | createTable => DocumentTable.Response.CreateTable.codec
  | deleteTable => DocumentTable.Response.DeleteTable.codec
  | putItem => DocumentTable.Response.PutItem.codec
  | getItem => DocumentTable.Response.GetItem.codec
  | updateItem => DocumentTable.Response.UpdateItem.codec
  | deleteItem => DocumentTable.Response.DeleteItem.codec
  | query => DocumentTable.Response.Query.codec
  | scan => DocumentTable.Response.Scan.codec
  | batchGetItem => DocumentTable.Response.BatchGetItem.codec
  | batchWriteItem => DocumentTable.Response.BatchWriteItem.codec
  | transactGetItems => DocumentTable.Response.TransactGetItems.codec
  | transactWriteItems => DocumentTable.Response.TransactWriteItems.codec

end Operation

/-- An operation with its request. -/
structure Call where
  operation : Operation
  request : operation.Request

namespace Call

/-- The body of a call. -/
def body (call : Call) : Json :=
  call.operation.requestCodec.encode call.request

end Call

end DocumentTable
