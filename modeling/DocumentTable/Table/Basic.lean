import DocumentTable.Definition
import DocumentTable.Settings
import DocumentTable.TableError

/-!
# Tables

A table for its user: what it is called, how its values are stored, and what holds when a call
does not say otherwise.

## Main definitions

* `Table`: the definition, the marshaller and the settings of a table
* `Table.index`, `Table.schema`: an index, and the key attributes of the table or of an index
* `Table.encode`, `Table.encodeItem`: values and documents as the table stores them
* `Table.keyOf`: the key of a document
-/

namespace DocumentTable

/-- The definition, the marshaller and the settings of a table. -/
structure Table where
  definition : Definition
  marshaller : Marshaller := .json
  settings : Settings := {}

namespace Table

/-- The name of the table. -/
def name (t : Table) : String :=
  t.definition.name

/-- The index of a name, which must be defined. -/
def index (t : Table) (name : String) : Except TableError Index :=
  match t.definition.index? name with
  | some ix => .ok ix
  | none => .error (.unknownIndex t.name name)

/-- The key attributes of the table, or of the named index. -/
def schema (t : Table) : (index : Option String) → Except TableError KeySchema
  | none => .ok t.definition.keySchema
  | some index => (t.index index).map Index.keySchema

/-- How errors call the table or the index that a schema belongs to. -/
def scope (t : Table) (schema : KeySchema) : String :=
  schema.index.getD t.name

/-- The stored form of a value. -/
def encode (t : Table) (value : Json) : Except TableError Attribute :=
  (t.marshaller.encode value).mapError .marshal

/-- The stored form of a document. -/
def encodeItem (t : Table) (document : Document) : Except TableError Item :=
  (t.marshaller.encodeItem document).mapError .marshal

/-- The document of a stored item. -/
def decodeItem (t : Table) (item : Item) : Except TableError Document :=
  (t.marshaller.decodeItem item).mapError .marshal

/-- The stored form of named values. -/
def encodeEntries (t : Table) (entries : List (String × Json)) : Except TableError Item := do
  return Dict.ofList (← (Dict.mapValuesM t.marshaller.encode entries).mapError .marshal)

/-- The stored form of one attribute of a document, which must be there. -/
def keyAttribute (t : Table) (document : Document) (name : String) :
    Except TableError (String × Attribute) :=
  match Dict.get? document name with
  | some value => return (name, ← t.encode value)
  | none => .error (.missingKeyAttribute name)

/-- The stored form of some attributes of a document. -/
def keyAttributes (t : Table) (document : Document) :
    (names : List String) → Except TableError (List (String × Attribute))
  | [] => .ok []
  | name :: names => do
    let entry ← t.keyAttribute document name
    return entry :: (← t.keyAttributes document names)

/-- The key of a document: its key attributes as the table stores them. The partition key is
looked at before the sort key. -/
def keyOf (t : Table) (document : Document) : Except TableError Item := do
  return Dict.ofList (← t.keyAttributes document t.definition.keyNames)

/-- The keys of documents. The first one at fault decides. -/
def keysOf (t : Table) (documents : List Document) : Except TableError (List Item) :=
  documents.mapM t.keyOf

end Table

end DocumentTable
