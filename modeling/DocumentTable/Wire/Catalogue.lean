import DocumentTable.Wire.Operation

/-!
# The catalogue of wire types

All types that travel, under the names that the description of the service gives them.

## Main definitions

* `WireType`: a type with its codec
* `WireType.catalogue`: the named types
* `WireType.named?`: the type of a name
-/

namespace DocumentTable

/-- A type with its codec. -/
structure WireType : Type 1 where
  {Value : Type}
  codec : Codec Value

namespace WireType

/-- The bodies of requests and responses. -/
def bodies : List (String × WireType) :=
  Operation.all.flatMap fun op =>
    [(op.name ++ "Input", ⟨op.requestCodec⟩), (op.name ++ "Output", ⟨op.responseCodec⟩)]

/-- Named alternatives. -/
def choices : List (String × WireType) :=
  [("KeyType", ⟨KeyRole.codec⟩),
   ("ScalarAttributeType", ⟨ScalarType.codec⟩),
   ("BillingMode", ⟨BillingMode.codec⟩),
   ("ProjectionType", ⟨ProjectionType.codec⟩),
   ("ReturnValue", ⟨ReturnValue.codec⟩)]

/-- Parts of the layout of a table. -/
def layouts : List (String × WireType) :=
  [("KeySchemaElement", ⟨KeyElement.codec⟩),
   ("AttributeDefinition", ⟨AttributeDefinition.codec⟩),
   ("ProvisionedThroughput", ⟨Throughput.codec⟩),
   ("Projection", ⟨Projection.codec⟩),
   ("GlobalSecondaryIndex", ⟨GlobalIndex.codec⟩),
   ("LocalSecondaryIndex", ⟨LocalIndex.codec⟩),
   ("TableDescription", ⟨TableDescription.codec⟩)]

/-- Entries of batches and transactions. -/
def entries : List (String × WireType) :=
  [("KeysAndAttributes", ⟨KeysRead.codec⟩),
   ("PutRequest", ⟨PutEntry.codec⟩),
   ("DeleteRequest", ⟨DeleteEntry.codec⟩),
   ("WriteRequest", ⟨WriteEntry.codec⟩),
   ("Get", ⟨TransactRead.codec⟩),
   ("TransactGetItem", ⟨TransactReadEntry.codec⟩),
   ("ItemResponse", ⟨TransactReadResult.codec⟩),
   ("ConditionCheck", ⟨TransactCheck.codec⟩),
   ("Put", ⟨TransactPut.codec⟩),
   ("Delete", ⟨TransactDelete.codec⟩),
   ("Update", ⟨TransactUpdate.codec⟩),
   ("TransactWriteItem", ⟨TransactWriteEntry.codec⟩)]

/-- All types by their names. -/
def catalogue : List (String × WireType) :=
  bodies ++ choices ++ layouts ++ entries ++ [("AttributeValue", ⟨Attribute.codec⟩)]

/-- The type of a name. -/
def named? (name : String) : Option WireType :=
  catalogue.lookup name

end WireType

end DocumentTable
