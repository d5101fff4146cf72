import DocumentTable.Client
import DocumentTable.Service.Reply
import DocumentTable.Service.Url
import DocumentTable.Settings

/-!
# Posting requests

A client that posts each request to an endpoint and reads the reply.

## Main definitions

* `Message`: what is posted
* `Delivery`, `Transport`: what becomes of a message
* `PostFault`: why there is no reply
* `Connection.client`: a client over a transport
-/

namespace DocumentTable

/-- A posted message. -/
structure Message where
  url : Url
  contentType : String
  /-- The operation that the message asks for. -/
  target : String
  body : List UInt8

/-- What becomes of a message. -/
inductive Delivery where
  /-- It reached nobody. -/
  | unsent
  /-- The reply ended before its announced length. -/
  | cutShort
  | complete (reply : Reply)

/-- What carries messages, with states `σ`. -/
structure Transport (σ : Type) where
  deliver : Message → σ → Delivery × σ

namespace Transport

/-- A transport that reaches nobody. -/
def offline : Transport Unit where
  deliver _ s := (.unsent, s)

end Transport

/-- Why there is no reply to a message. -/
inductive PostFault where
  /-- The endpoint is no address. -/
  | noAddress
  /-- The endpoint is an address that messages cannot be posted to. -/
  | unsupported (url : Url)
  | unsent (url : Url)
  | cutShort (url : Url)
  deriving DecidableEq

namespace PostFault

/-- The wording of a fault. -/
def message : PostFault → String
  | noAddress => "builder error"
  | unsupported url => "builder error for url (" ++ url.text ++ ")"
  | unsent url => "error sending request for url (" ++ url.text ++ ")"
  | cutShort url => "error decoding response body for url (" ++ url.text ++ ")"

/-- The error of an operation that a fault ended. -/
def toError (op : Operation) (fault : PostFault) : ServiceError :=
  let wording :=
    match fault with
    | cutShort _ => "Failed to read " ++ op.name ++ " response: " ++ fault.message
    | _ => op.name ++ " request failed: " ++ fault.message
  (ServiceError.ofCode .internalServer wording).withSource fault.message

end PostFault

/-- The address of an endpoint, to which messages can be posted. -/
def postAddress (endpoint : String) : Except PostFault Url :=
  match Url.ofText? endpoint with
  | none => .error .noAddress
  | some url =>
    let postable := url.authority.any fun a => a.host.isPostable
    if (url.scheme = "http" || url.scheme = "https") && postable then .ok url
    else .error (.unsupported url)

namespace Transport

variable {σ : Type}

/-- Posts the body of an operation to an endpoint. -/
def post (t : Transport σ) (endpoint : String) (op : Operation) (body : List UInt8) (state : σ) :
    Except PostFault Reply × σ :=
  match postAddress endpoint with
  | .error fault => (.error fault, state)
  | .ok url =>
    match t.deliver { url, contentType, target := op.target, body } state with
    | (.unsent, state) => (.error (.unsent url), state)
    | (.cutShort, state) => (.error (.cutShort url), state)
    | (.complete reply, state) => (.ok reply, state)

end Transport

/-- The client that posts requests over a connection. -/
def Connection.client {σ : Type} (c : Connection) (t : Transport σ) : Client σ where
  send op request state :=
    let body := bytesOf (op.requestCodec.print request)
    let (outcome, state) := t.post c.endpoint op body state
    let result :=
      match outcome with
      | .ok reply => reply.result op.responseCodec
      | .error fault => .error (fault.toError op)
    (⟨[.sendingRequest op c.endpoint body.length], result⟩, state)

end DocumentTable
