import DocumentTable.Condition.Basic
import DocumentTable.Cursor
import DocumentTable.KeyCondition
import DocumentTable.Update.Basic
import DocumentTable.Wire.Schema

/-!
# Options of table operations

What a call may say beside the keys and the items that it is about. Every option may be left out.

## Main definitions

* `GetOptions`, `WriteOptions`, `SetOptions`, `QueryOptions`, `ScanOptions`
* `ConditionalItem`, `ConditionalUpdate`: entries of a transaction
* `Transaction`: writes that happen together or not at all
-/

namespace DocumentTable

/-- Options of reads by key. -/
structure GetOptions where
  /-- The attributes to retrieve; all of them when there are none. -/
  projection : List Path := []
  /-- Whether the read is strongly consistent, if the settings do not decide. -/
  consistentRead : Option Bool := none

/-- Options of puts and deletes. -/
structure WriteOptions where
  /-- The write happens only when this holds. -/
  condition : Option Condition := none

/-- Options of updates. -/
structure SetOptions where
  /-- The update happens only when this holds. -/
  condition : Option Condition := none
  /-- Which attributes to return, if the settings do not decide. -/
  returnValue : Option ReturnValue := none

/-- Options of queries. -/
structure QueryOptions where
  pageSize : Option UInt32 := none
  sortKey : Option SortTest := none
  /-- The condition that read items must meet to be returned. -/
  filter : Option Condition := none
  /-- The cursor of an earlier page. -/
  start : Option Cursor := none
  /-- The sort key behind which to start, unless there is a cursor. -/
  fromSortKey : Option Json := none
  descending : Bool := false
  /-- Whether the read is strongly consistent, if the settings do not decide. -/
  consistentRead : Option Bool := none

/-- Options of scans. -/
structure ScanOptions where
  pageSize : Option UInt32 := none
  /-- The condition that read items must meet to be returned. -/
  filter : Option Condition := none
  /-- The cursor of an earlier page. -/
  start : Option Cursor := none
  /-- The partition key behind which to start, unless there is a cursor. -/
  fromPartitionKey : Option Json := none
  /-- The sort key behind which to start, unless there is a cursor. -/
  fromSortKey : Option Json := none
  /-- Whether the read is strongly consistent, if the settings do not decide. -/
  consistentRead : Option Bool := none

/-- An item to put, or a key to delete, as an entry of a transaction. -/
structure ConditionalItem where
  item : Document
  condition : Option Condition := none

/-- An update as an entry of a transaction. -/
structure ConditionalUpdate where
  key : Document
  updates : UpdateTree
  condition : Option Condition := none

/-- Writes that happen together or not at all: deletes, then puts, then updates. -/
structure Transaction where
  deletes : List ConditionalItem := []
  puts : List ConditionalItem := []
  updates : List ConditionalUpdate := []

namespace Transaction

/-- The number of entries. -/
def size (t : Transaction) : Nat :=
  t.deletes.length + t.puts.length + t.updates.length

/-- Whether there are no entries. -/
def isEmpty (t : Transaction) : Bool :=
  t.size = 0

end Transaction

end DocumentTable
