import DocumentTable.Text.Split

/-!
# Service errors

Errors that the service answers with, or that arise on the way to it.

## Main definitions

* `ErrorCode`: the codes that are told apart
* `ServiceError`: a code, the type it was read from, and a message
* `ServiceError.ofType`: the error of a type as responses write it
-/

namespace DocumentTable

/-- The codes of errors that are told apart; all others are unknown. -/
inductive ErrorCode where
  | resourceInUse
  | resourceNotFound
  | conditionalCheckFailed
  | transactionCanceled
  | transactionConflict
  | throughputExceeded
  | requestLimitExceeded
  | validation
  | serialization
  | internalServer
  | unknown
  deriving DecidableEq, Repr

instance : Inhabited ErrorCode := ⟨.unknown⟩

namespace ErrorCode

/-- The name of a code. -/
def name : ErrorCode → String
  | resourceInUse => "ResourceInUseException"
  | resourceNotFound => "ResourceNotFoundException"
  | conditionalCheckFailed => "ConditionalCheckFailedException"
  | transactionCanceled => "TransactionCanceledException"
  | transactionConflict => "TransactionConflictException"
  | throughputExceeded => "ProvisionedThroughputExceededException"
  | requestLimitExceeded => "RequestLimitExceeded"
  | validation => "ValidationException"
  | serialization => "SerializationException"
  | internalServer => "InternalServerError"
  | unknown => "Unknown"

/-- The codes that the service names. -/
def known : List ErrorCode :=
  [resourceInUse, resourceNotFound, conditionalCheckFailed, transactionCanceled,
   transactionConflict, throughputExceeded, requestLimitExceeded, validation, serialization,
   internalServer]

/-- The code of a name. -/
def ofName (name : String) : ErrorCode :=
  (known.find? fun code => code.name = name).getD unknown

end ErrorCode

/-- The part of an error type after its namespace, which ends in the last `#`. -/
def shortType (type : String) : String :=
  String.ofList (((splitAll ['#'] type.toList).getLast?).getD [])

/-- An error of the service. -/
structure ServiceError where
  code : ErrorCode
  /-- The type without its namespace, which tells unknown codes apart. -/
  type : String
  message : String
  /-- The status of the response, if there was one. -/
  status : Option Nat := none
  /-- The wording of the error that caused this one. -/
  source : Option String := none
  deriving DecidableEq

namespace ServiceError

/-- An error with a known code. -/
def ofCode (code : ErrorCode) (message : String) : ServiceError :=
  { code, type := code.name, message }

/-- An error with a type as responses write it. -/
def ofType (type message : String) : ServiceError :=
  { code := .ofName (shortType type), type := shortType type, message }

/-- The error as part of a response with the given status. -/
def withStatus (e : ServiceError) (status : Nat) : ServiceError :=
  { e with status := some status }

/-- The error with its cause. -/
def withSource (e : ServiceError) (source : String) : ServiceError :=
  { e with source := some source }

/-- Whether a write was refused because its condition did not hold. -/
def isConditional (e : ServiceError) : Bool :=
  e.code = .conditionalCheckFailed

/-- The wording of an error. -/
def display (e : ServiceError) : String :=
  "DynamoDBError(" ++ e.type ++ "): " ++ e.message

end ServiceError

end DocumentTable
