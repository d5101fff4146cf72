import DocumentTable.Wire.Request

/-!
# Definitions of tables

## Main definitions

* `Index`: a secondary index
* `Definition`: the name, the key and the indexes of a table
* `KeySchema`: the key attributes of a table or an index
* `CreateOptions`: what else creating a table needs
* `Definition.createRequest`: the request that creates a table
-/

namespace DocumentTable

/-- Whether an index has a partition key of its own. -/
inductive IndexKind where
  | globalIndex
  | localIndex
  deriving DecidableEq, Repr

/-- A secondary index. The partition key of a local index is that of its table. -/
structure Index where
  name : String
  partitionKey : String
  sortKey : Option String
  kind : IndexKind
  deriving DecidableEq

/-- The name, the key and the indexes of a table. -/
structure Definition where
  name : String
  partitionKey : String
  sortKey : Option String := none
  indexes : List Index := []
  deriving DecidableEq

/-- The key attributes of a table or an index. -/
structure KeySchema where
  partitionKey : String
  sortKey : Option String
  /-- The name of the index; `none` is the table itself. -/
  index : Option String
  deriving DecidableEq

namespace Definition

/-- A table whose key is a partition key alone. -/
def new (name partitionKey : String) : Definition :=
  { name, partitionKey }

/-- The table with a sort key. -/
def withSortKey (d : Definition) (sortKey : String) : Definition :=
  { d with sortKey := some sortKey }

/-- The table with a further global index. -/
def withGlobalIndex (d : Definition) (name partitionKey : String) (sortKey : Option String) :
    Definition :=
  { d with indexes := d.indexes ++ [⟨name, partitionKey, sortKey, .globalIndex⟩] }

/-- The table with a further local index. -/
def withLocalIndex (d : Definition) (name sortKey : String) : Definition :=
  { d with indexes := d.indexes ++ [⟨name, d.partitionKey, some sortKey, .localIndex⟩] }

/-- The first index of a name. -/
def index? (d : Definition) (name : String) : Option Index :=
  d.indexes.find? fun ix => ix.name = name

/-- The names of the key attributes, the partition key first. -/
def keyNames (d : Definition) : List String :=
  d.partitionKey :: d.sortKey.toList

/-- The key attributes of the table. -/
def keySchema (d : Definition) : KeySchema :=
  ⟨d.partitionKey, d.sortKey, none⟩

end Definition

/-- The key attributes of an index. -/
def Index.keySchema (ix : Index) : KeySchema :=
  ⟨ix.partitionKey, ix.sortKey, some ix.name⟩

/-- What creating a table needs beside its definition. -/
structure CreateOptions where
  billingMode : BillingMode := .payPerRequest
  /-- The types of all key attributes of the table and its indexes. -/
  keyTypes : List (String × ScalarType) := []
  throughput : Option Throughput := none
  /-- The capacity of each global index. -/
  indexThroughput : Dict Throughput := []
  deriving DecidableEq

namespace CreateOptions

/-- Billing by request. -/
def payPerRequest (keyTypes : List (String × ScalarType)) : CreateOptions :=
  { keyTypes }

/-- Provisioned capacity. -/
def provisioned (keyTypes : List (String × ScalarType)) (throughput : Throughput) :
    CreateOptions :=
  { billingMode := .provisioned, keyTypes, throughput := some throughput }

end CreateOptions

/-- The elements of a key. -/
def keyElements (partitionKey : String) (sortKey : Option String) : List KeyElement :=
  ⟨partitionKey, .partition⟩ ::
    match sortKey with
    | some name => [⟨name, .sort⟩]
    | none => []

namespace Definition

/-- The request that creates the table with its indexes, each carrying all attributes. -/
def createRequest (d : Definition) (options : CreateOptions) : Request.CreateTable where
  table := d.name
  keySchema := keyElements d.partitionKey d.sortKey
  attributes := options.keyTypes.map fun (name, type) => ⟨name, type⟩
  billingMode := some options.billingMode
  throughput := options.throughput
  globalIndexes :=
    (d.indexes.filter fun ix => ix.kind = .globalIndex).map fun ix =>
      { name := ix.name
        keySchema := keyElements ix.partitionKey ix.sortKey
        projection := { type := some .everything }
        throughput := Dict.get? options.indexThroughput ix.name }
  localIndexes :=
    (d.indexes.filter fun ix => ix.kind = .localIndex).map fun ix =>
      { name := ix.name
        keySchema := keyElements d.partitionKey ix.sortKey
        projection := { type := some .everything } }

end Definition

end DocumentTable
