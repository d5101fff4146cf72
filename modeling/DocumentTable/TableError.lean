import DocumentTable.Expression
import DocumentTable.Marshaller
import DocumentTable.Service.Error

/-!
# Errors of table operations

## Main definitions

* `maxTransaction`, `maxBatchGet`, `maxBatchWrite`: how much one request may hold
* `TableError`: all causes, with their wording in `TableError.message`
-/

namespace DocumentTable

/-- The most entries of one transaction. -/
def maxTransaction : Nat := 100

/-- The most keys of one batch of reads. -/
def maxBatchGet : Nat := 100

/-- The most entries of one batch of writes. -/
def maxBatchWrite : Nat := 25

/-- Why an operation on a table failed. -/
inductive TableError where
  | expression (cause : ExpressionError)
  | marshal (cause : MarshalError)
  /-- The service refused the request, or was not reached. -/
  | service (cause : ServiceError)
  /-- A key lacks one of the key attributes. -/
  | missingKeyAttribute (name : String)
  | unknownIndex (table index : String)
  /-- A sort key is used where there is none. -/
  | noSortKey (scope : String)
  /-- A start key has one of its two values only. -/
  | incompleteStartKey
  | tooManyEntries (count : Nat)
  /-- A document is not a value of the caller's type. -/
  | unreadable (cause : ReadError)
  deriving DecidableEq

namespace TableError

/-- The wording of an error. -/
def message : TableError → String
  | expression cause => cause.message
  | marshal cause => cause.message
  | service cause => cause.display
  | missingKeyAttribute name => s!"Key attribute `{name}` is missing"
  | unknownIndex table index => s!"Table `{table}` has no index named `{index}`"
  | noSortKey scope => s!"`{scope}` has no sort key"
  | incompleteStartKey => "Legacy start key needs both the hash and sort key values"
  | tooManyEntries count =>
    s!"Transaction has {count} items, at most " ++ toString maxTransaction ++ " are allowed"
  | unreadable cause => "Serialization error: " ++ cause.message

/-- Whether a write was refused because its condition did not hold. -/
def isConditional : TableError → Bool
  | service cause => cause.isConditional
  | _ => false

/-- The code of an error of the service. -/
def serviceCode? : TableError → Option ErrorCode
  | service cause => some cause.code
  | _ => none

end TableError

end DocumentTable
