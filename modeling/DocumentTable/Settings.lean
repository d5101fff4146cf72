import DocumentTable.Wire.Schema

/-!
# Settings

Defaults of a table and of the connection to the service, which environment variables may change.

## Main definitions

* `Environment`: the variables that are set
* `Settings`: what a table does when a call does not say otherwise
* `Connection`: where the service is and how long to wait for it
-/

namespace DocumentTable

/-- The environment variables that are set. -/
abbrev Environment := Dict String

/-- The value of a name in any mixture of cases. -/
def ReturnValue.ofText? (text : String) : Option ReturnValue :=
  let name := String.ofList (text.toList.map Char.toUpper)
  ReturnValue.values.find? fun value => value.name = name

/-- What a table does when a call does not say otherwise. -/
structure Settings where
  /-- Whether reads are strongly consistent. -/
  consistentRead : Bool := false
  /-- Which attributes an update returns. -/
  returnValue : ReturnValue := .allNew
  deriving DecidableEq

namespace Settings

/-- The words that switch a setting on. -/
def affirmative : List String :=
  ["1", "true", "yes", "TRUE", "YES"]

/-- The settings of an environment. -/
def ofEnvironment (env : Environment) : Settings :=
  let defaults : Settings := {}
  { consistentRead :=
      match Dict.get? env "DYNAMO_TABLE_CONSISTENT_READ" with
      | some text => affirmative.contains text
      | none => defaults.consistentRead
    returnValue :=
      ((Dict.get? env "DYNAMO_TABLE_UPDATE_RETURN_VALUES").bind ReturnValue.ofText?).getD
        defaults.returnValue }

end Settings

/-- Where the service is and how long to wait for it. -/
structure Connection where
  endpoint : String := "http://localhost:4566"
  /-- The time to wait for a response, in seconds. -/
  timeout : UInt64 := 30
  deriving DecidableEq

namespace Connection

/-- The connection to an endpoint. -/
def toEndpoint (endpoint : String) : Connection :=
  { endpoint }

/-- The number of seconds that a text says. -/
def readTimeout? (text : String) : Option UInt64 :=
  (readUnsigned text.toList).bind fun n => if n < UInt64.size then some (UInt64.ofNat n) else none

/-- The connection of an environment. -/
def ofEnvironment (env : Environment) : Connection :=
  let defaults : Connection := {}
  { endpoint := (Dict.get? env "DYNAMODB_ENDPOINT_URL").getD defaults.endpoint
    timeout := ((Dict.get? env "DYNAMODB_TIMEOUT_SECS").bind readTimeout?).getD defaults.timeout }

end Connection

end DocumentTable
