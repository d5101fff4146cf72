import DocumentTable.Json.Codec
import DocumentTable.Service.Error
import DocumentTable.Service.Status

/-!
# Replies of the service

## Main definitions

* `Reply`: the status and the body of a response
* `Reply.decode`: the body of a successful response
* `Reply.error`: the error that any other response carries
* `Reply.result`: one of the two
-/

namespace DocumentTable

/-- A response: its status and its body. -/
structure Reply where
  status : Nat
  body : List UInt8
  deriving DecidableEq

/-- What the body of an error response may say. -/
structure ErrorBody where
  type : Option String
  message : Option String
  deriving DecidableEq

/-- The codec of error bodies. The message has two spellings. -/
def ErrorBody.codec : Codec ErrorBody :=
  .record "ErrorBody"
    (.cons (.optional "__type" .text) <|
     .cons { Field.optional "Message" .text with aliases := ["message"] } .nil)
    (fun b => (b.type, b.message, ()))
    (fun (type, message, _) => ⟨type, message⟩)

namespace Reply

variable {α : Type}

/-- The value of the body of a successful response, of which nothing at all stands for an object
without members. -/
def decode (codec : Codec α) (body : List UInt8) : Except ServiceError α :=
  match codec.parseBytes (if body.isEmpty then bytesOf "\x7b\x7d" else body) with
  | .ok value => .ok value
  | .error e =>
    .error <|
      (ServiceError.ofCode .serialization ("Invalid response body: " ++ e.message)).withSource
        e.message

/-- The error that a response carries. A body that does not say more is itself the message. -/
def error (reply : Reply) : ServiceError :=
  let body := (ErrorBody.codec.parseBytes reply.body).toOption
  let message := (body.bind ErrorBody.message).getD (lossyText reply.body)
  match body.bind ErrorBody.type with
  | some type => (ServiceError.ofType type message).withStatus reply.status
  | none =>
    (ServiceError.ofCode .internalServer
      ("HTTP " ++ describeStatus reply.status ++ ": " ++ message)).withStatus reply.status

/-- The value or the error of a response. -/
def result (codec : Codec α) (reply : Reply) : Except ServiceError α :=
  if isSuccess reply.status then decode codec reply.body else .error reply.error

end Reply

end DocumentTable
