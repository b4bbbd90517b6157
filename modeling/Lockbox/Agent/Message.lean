import Lockbox.Agent.Frame
import Lockbox.Json.Fields
import Lockbox.Json.Layout

namespace Lockbox

/-!
# Messages

A client sends one request and gets one response.  Both are JSON objects.  Fields of a request that
are missing are empty, and a command that nobody knows is still a request.

* `Request.toBytes`, `Request.ofBytes?` — a request as payload of a frame.
* `Response.toBytes`, `Response.ofBytes?` — a response as payload of a frame.
-/

/-! ### Requests -/

/-- What a request asks for. -/
inductive Command
  | get
  | set
  | reset
  /-- Something that no agent knows. -/
  | unknown (text : String)
  deriving DecidableEq, Repr

namespace Command

/-- The command that a text stands for. -/
def ofText (text : String) : Command :=
  if text = "GET" then get
  else if text = "SET" then set
  else if text = "RST" then reset
  else unknown text

/-- The text that a command is sent as. -/
def toText : Command → String
  | get => "GET"
  | set => "SET"
  | reset => "RST"
  | unknown text => text

end Command

/-- A request. -/
structure Request where
  /-- What is asked for. -/
  command : Command
  /-- The name that a password is kept under. -/
  name : String := ""
  /-- The password to keep. -/
  data : String := ""
  deriving DecidableEq, Repr

namespace Request

/-- The request for a password. -/
def get (name : String) : Request := { command := .get, name }

/-- The request to keep a password. -/
def set (name password : String) : Request := { command := .set, name, data := password }

/-- The request to forget a password. -/
def reset (name : String) : Request := { command := .reset, name }

/-- The names of the fields. -/
def fieldNames : List String := ["Command", "PwName", "PwData"]

/-- A request as a value. -/
def toJson (request : Request) : Json :=
  .object [
    (Json.TextUnit.ofText "Command", Json.ofText request.command.toText),
    (Json.TextUnit.ofText "PwName", Json.ofText request.name),
    (Json.TextUnit.ofText "PwData", Json.ofText request.data)]

/-- The request that a value describes. -/
def ofJson? (value : Json) : Option Request := do
  match ← value.fields? fieldNames with
  | [command, name, data] =>
    return {
      command := Command.ofText (← Json.required? command)
      name := ← Json.optional? name
      data := ← Json.optional? data }
  | _ => none

/-- A request as payload. -/
def toBytes (request : Request) : Bytes := request.toJson.print .compact

/-- The request that a payload describes. -/
def ofBytes? (payload : Bytes) : Option Request := do ofJson? (← Json.parse? payload)

end Request

/-! ### Responses -/

/-- A response. -/
structure Response where
  /-- Zero if all went well. -/
  code : Int32
  /-- The password that was asked for. -/
  data : String := ""
  deriving DecidableEq, Repr

namespace Response

/-- The response when all went well. -/
def ok (data : String) : Response := { code := 0, data }

/-- The response when anything went wrong. -/
def error : Response := { code := 1 }

/-- The names of the fields. -/
def fieldNames : List String := ["ResultCode", "ResultData"]

/-- A response as a value. -/
def toJson (response : Response) : Json :=
  .object [
    (Json.TextUnit.ofText "ResultCode", Json.ofInt response.code.toInt),
    (Json.TextUnit.ofText "ResultData", Json.ofText response.data)]

/-- The response that a value describes. -/
def ofJson? (value : Json) : Option Response := do
  match ← value.fields? fieldNames with
  | [code, data] => return { code := ← Json.int32? (← code), data := ← Json.optional? data }
  | _ => none

/-- A response as payload. -/
def toBytes (response : Response) : Bytes := response.toJson.print .compact

/-- The response that a payload describes. -/
def ofBytes? (payload : Bytes) : Option Response := do ofJson? (← Json.parse? payload)

/-- What a response means to the one who asked. -/
def result (response : Response) : Except AgentError String :=
  if response.code = 0 then .ok response.data else .error (.rejected response.code response.data)

end Response

end Lockbox
