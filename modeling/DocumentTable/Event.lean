import DocumentTable.Condition.Clause
import DocumentTable.Service.Error
import DocumentTable.Update.Clause
import DocumentTable.Wire.Operation

/-!
# Events

What a table reports while it works, for whoever watches its log.

## Main definitions

* `Severity`: how much an event matters
* `Event`: what is reported, with its message and its fields
* `Clause.event`, `UpdateClauses.event`: the reports on expressions
-/

namespace DocumentTable

/-- How much an event matters. -/
inductive Severity where
  | debug
  | warn
  | error
  deriving DecidableEq, Repr

/-- The name of a severity. -/
def Severity.name : Severity → String
  | debug => "DEBUG"
  | warn => "WARN"
  | error => "ERROR"

/-- Something that is reported. -/
inductive Event where
  /-- A condition has a clause; `names` counts the names with placeholders after it. -/
  | conditionCompiled (text : String) (names : Nat)
  /-- An update has its clauses. -/
  | updateCompiled (text : String) (sets removes : Nat)
  /-- A transaction of writes is about to be sent. -/
  | sendingTransaction (table : String) (entries : Nat)
  /-- A request is about to be posted to an endpoint. -/
  | sendingRequest (operation : Operation) (endpoint : String) (bytes : Nat)
  /-- The service refused a request, or was not reached. -/
  | requestFailed (table : String) (operation : Operation) (cause : ServiceError)
  /-- Writes of a batch did not happen. -/
  | writesUnprocessed (table : String) (count : Nat)
  /-- Keys of a batch were not looked at. -/
  | keysUnprocessed (table : String) (count : Nat)
  deriving DecidableEq

namespace Event

/-- How much each event matters. -/
def severity : Event → Severity
  | conditionCompiled .. => .debug
  | updateCompiled .. => .debug
  | sendingTransaction .. => .debug
  | sendingRequest .. => .debug
  | requestFailed .. => .error
  | writesUnprocessed .. => .warn
  | keysUnprocessed .. => .warn

/-- The wording of an event. -/
def message : Event → String
  | conditionCompiled .. => "compiled condition expression"
  | updateCompiled .. => "compiled update expression"
  | sendingTransaction .. => "sending transaction"
  | sendingRequest .. => "sending DynamoDB request"
  | requestFailed .. => "DynamoDB request failed"
  | writesUnprocessed .. => "BatchWriteItem left requests unprocessed"
  | keysUnprocessed .. => "BatchGetItem left keys unprocessed"

/-- A count as the value of a field. -/
def count (n : Nat) : Json :=
  Json.ofInt n

/-- The fields of an event. -/
def fields : Event → Document
  | conditionCompiled text names => [("expression", .string text), ("names", count names)]
  | updateCompiled text sets removes =>
    [("expression", .string text), ("removes", count removes), ("sets", count sets)]
  | sendingTransaction table entries => [("items", count entries), ("table", .string table)]
  | sendingRequest operation endpoint bytes =>
    [("bytes", count bytes), ("endpoint", .string endpoint), ("operation", .string operation.name)]
  | requestFailed table operation cause =>
    [("error", .string cause.display), ("operation", .string operation.name),
     ("table", .string table)]
  | writesUnprocessed table n => [("count", count n), ("table", .string table)]
  | keysUnprocessed table n => [("count", count n), ("table", .string table)]

end Event

/-- The report on the clause of a condition, after which the registry is as given. -/
def Clause.event (clause : PlacedClause) (registry : Registry) : Event :=
  .conditionCompiled clause.text registry.names.length

/-- The report on the clauses of an update. -/
def UpdateClauses.event (clauses : PlacedUpdate) : Event :=
  .updateCompiled clauses.text clauses.sets.length clauses.removes.length

end DocumentTable
