import DocumentTable.Wire.Attribute

/-!
# The layout of tables on the wire

Keys, indexes and capacities as requests and responses name them, with their codecs.

## Main definitions

* `KeyRole`, `ScalarType`, `BillingMode`, `ProjectionType`, `ReturnValue`: named alternatives
* `KeyElement`, `AttributeDefinition`, `Throughput`, `Projection`: parts of a layout
* `GlobalIndex`, `LocalIndex`: secondary indexes
* `TableDescription`: what is read back of a table
-/

namespace DocumentTable

/-- The role of an attribute in a key. -/
inductive KeyRole where
  | partition
  | sort
  deriving DecidableEq, Repr

namespace KeyRole

/-- The name of each value. -/
def name : KeyRole → String
  | partition => "HASH"
  | sort => "RANGE"

/-- All values in order. -/
def values : List KeyRole :=
  [.partition, .sort]

/-- The codec of key roles. -/
def codec : Codec KeyRole :=
  .choice (values.map fun value => (value.name, value)) name

end KeyRole

/-- The types that key attributes may have. -/
inductive ScalarType where
  | string
  | number
  | binary
  deriving DecidableEq, Repr

instance : Inhabited ScalarType := ⟨.string⟩

namespace ScalarType

/-- The name of each value. -/
def name : ScalarType → String
  | string => "S"
  | number => "N"
  | binary => "B"

/-- All values in order. -/
def values : List ScalarType :=
  [.string, .number, .binary]

/-- The codec of scalar types. -/
def codec : Codec ScalarType :=
  .choice (values.map fun value => (value.name, value)) name

end ScalarType

/-- How the capacity of a table is billed. -/
inductive BillingMode where
  | provisioned
  | payPerRequest
  deriving DecidableEq, Repr

instance : Inhabited BillingMode := ⟨.payPerRequest⟩

namespace BillingMode

/-- The name of each value. -/
def name : BillingMode → String
  | provisioned => "PROVISIONED"
  | payPerRequest => "PAY_PER_REQUEST"

/-- All values in order. -/
def values : List BillingMode :=
  [.provisioned, .payPerRequest]

/-- The codec of billing modes. -/
def codec : Codec BillingMode :=
  .choice (values.map fun value => (value.name, value)) name

end BillingMode

/-- Which attributes a secondary index carries. -/
inductive ProjectionType where
  | everything
  | keysOnly
  | selected
  deriving DecidableEq, Repr

instance : Inhabited ProjectionType := ⟨.everything⟩

namespace ProjectionType

/-- The name of each value. -/
def name : ProjectionType → String
  | everything => "ALL"
  | keysOnly => "KEYS_ONLY"
  | selected => "INCLUDE"

/-- All values in order. -/
def values : List ProjectionType :=
  [.everything, .keysOnly, .selected]

/-- The codec of projection types. -/
def codec : Codec ProjectionType :=
  .choice (values.map fun value => (value.name, value)) name

end ProjectionType

/-- Which attributes a write returns: none, all or the changed ones, as they were before or after
it. -/
inductive ReturnValue where
  | nothing
  | allOld
  | updatedOld
  | allNew
  | updatedNew
  deriving DecidableEq, Repr

instance : Inhabited ReturnValue := ⟨.nothing⟩

namespace ReturnValue

/-- The name of each value. -/
def name : ReturnValue → String
  | nothing => "NONE"
  | allOld => "ALL_OLD"
  | updatedOld => "UPDATED_OLD"
  | allNew => "ALL_NEW"
  | updatedNew => "UPDATED_NEW"

/-- All values in order. -/
def values : List ReturnValue :=
  [.nothing, .allOld, .updatedOld, .allNew, .updatedNew]

/-- The codec of return values. -/
def codec : Codec ReturnValue :=
  .choice (values.map fun value => (value.name, value)) name

end ReturnValue

/-- An attribute of a key and its role. -/
structure KeyElement where
  name : String
  role : KeyRole
  deriving DecidableEq

/-- The codec of key elements. -/
def KeyElement.codec : Codec KeyElement :=
  .record "KeySchemaElement"
    (.cons (.required "AttributeName" .text) <|
     .cons (.required "KeyType" KeyRole.codec) .nil)
    (fun r => (r.name, r.role, ()))
    (fun (name, role, _) => ⟨name, role⟩)

/-- The type of an attribute that some key uses. -/
structure AttributeDefinition where
  name : String
  type : ScalarType
  deriving DecidableEq

/-- The codec of attribute definitions. -/
def AttributeDefinition.codec : Codec AttributeDefinition :=
  .record "AttributeDefinition"
    (.cons (.required "AttributeName" .text) <|
     .cons (.required "AttributeType" ScalarType.codec) .nil)
    (fun r => (r.name, r.type, ()))
    (fun (name, type, _) => ⟨name, type⟩)

/-- Provisioned reads and writes per second. -/
structure Throughput where
  reads : Int64
  writes : Int64
  deriving DecidableEq

/-- The codec of capacities. -/
def Throughput.codec : Codec Throughput :=
  .record "ProvisionedThroughput"
    (.cons (.required "ReadCapacityUnits" .int64) <|
     .cons (.required "WriteCapacityUnits" .int64) .nil)
    (fun r => (r.reads, r.writes, ()))
    (fun (reads, writes, _) => ⟨reads, writes⟩)

/-- The attributes that a secondary index carries. -/
structure Projection where
  type : Option ProjectionType := none
  /-- Further attributes, when the type asks for them. -/
  attributes : List String := []
  deriving DecidableEq

/-- The codec of projections. -/
def Projection.codec : Codec Projection :=
  .record "Projection"
    (.cons (.optional "ProjectionType" ProjectionType.codec) <|
     .cons (.listOrNothing "NonKeyAttributes" .text) .nil)
    (fun r => (r.type, r.attributes, ()))
    (fun (type, attributes, _) => ⟨type, attributes⟩)

/-- A secondary index with a partition key of its own. -/
structure GlobalIndex where
  name : String
  keySchema : List KeyElement
  projection : Projection
  /-- Required when the table has provisioned capacity. -/
  throughput : Option Throughput := none
  deriving DecidableEq

/-- The codec of global indexes. -/
def GlobalIndex.codec : Codec GlobalIndex :=
  .record "GlobalSecondaryIndex"
    (.cons (.required "IndexName" .text) <|
     .cons (.required "KeySchema" KeyElement.codec.list) <|
     .cons (.required "Projection" Projection.codec) <|
     .cons (.optional "ProvisionedThroughput" Throughput.codec) .nil)
    (fun r => (r.name, r.keySchema, r.projection, r.throughput, ()))
    (fun (name, keySchema, projection, throughput, _) => ⟨name, keySchema, projection, throughput⟩)

/-- A secondary index over the table's partition key. -/
structure LocalIndex where
  name : String
  keySchema : List KeyElement
  projection : Projection
  deriving DecidableEq

/-- The codec of local indexes. -/
def LocalIndex.codec : Codec LocalIndex :=
  .record "LocalSecondaryIndex"
    (.cons (.required "IndexName" .text) <|
     .cons (.required "KeySchema" KeyElement.codec.list) <|
     .cons (.required "Projection" Projection.codec) .nil)
    (fun r => (r.name, r.keySchema, r.projection, ()))
    (fun (name, keySchema, projection, _) => ⟨name, keySchema, projection⟩)

/-- What is read back of a table. -/
structure TableDescription where
  name : Option String := none
  status : Option String := none
  keySchema : List KeyElement := []
  itemCount : Option Int64 := none
  deriving DecidableEq

/-- The codec of table descriptions. -/
def TableDescription.codec : Codec TableDescription :=
  .record "TableDescription"
    (.cons (.optional "TableName" .text) <|
     .cons (.optional "TableStatus" .text) <|
     .cons (.listOrNothing "KeySchema" KeyElement.codec) <|
     .cons (.optional "ItemCount" .int64) .nil)
    (fun r => (r.name, r.status, r.keySchema, r.itemCount, ()))
    (fun (name, status, keySchema, itemCount, _) => ⟨name, status, keySchema, itemCount⟩)

end DocumentTable
