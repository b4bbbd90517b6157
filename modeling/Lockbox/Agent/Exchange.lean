import Lockbox.Agent.Message
import Lockbox.Agent.Store

namespace Lockbox

/-!
# Asking and answering

One connection carries one request and one response.  `serve` is the side of the agent,
`PasswordStore.client` that of the client.

* `Request.answer` — what a store says to a request.
* `serve` — reads a request from a stream and answers it.
* `Response.read`, `Request.transact` — what a client makes of the stream that comes back.
* `PasswordStore.client` — a store at the other end of a line.
-/

/-! ### The agent -/

/-- What a store says to a request.  Why it refuses is not told. -/
def Request.answer {σ : Type} (store : PasswordStore σ) (request : Request) :
    StateM σ Response := do
  let outcome ← match request.command with
    | .get => (store.get request.name).run
    | .set => (Functor.map (fun _ => "") (store.set request.name request.data)).run
    | .reset => (Functor.map (fun _ => "") (store.reset request.name)).run
    | .unknown _ => pure (.error (.rejected Response.error.code ""))
  match outcome with
  | .ok data => return .ok data
  | .error _ => return .error

/-- What came of serving a connection. -/
structure Served where
  /-- Whether the request was answered. -/
  outcome : Except AgentError Unit
  /-- The bytes that were written. -/
  written : Bytes
  /-- The bytes of the stream that were not read. -/
  unread : Bytes

/-- Reads a request from a stream and answers it.  A payload that is no request is answered with an
    error; a response that fits no frame is not sent. -/
def serve {σ : Type} (store : PasswordStore σ) (stream : Bytes) : StateM σ Served := do
  match Frame.read stream with
  | (.error error, unread) => return { outcome := .error error, written := [], unread }
  | (.ok payload, unread) =>
    let response ← match Request.ofBytes? payload with
      | some request => request.answer store
      | none => pure .error
    match Frame.write response.toBytes with
    | .ok frame => return { outcome := .ok (), written := frame, unread }
    | .error error => return { outcome := .error error, written := [], unread }

/-! ### The client -/

/-- What a client makes of the stream that comes back, and what it leaves of it. -/
def Response.read (stream : Bytes) : Except AgentError String × Bytes :=
  match Frame.read stream with
  | (.error error, unread) => (.error error, unread)
  | (.ok payload, unread) =>
    match Response.ofBytes? payload with
    | some response => (response.result, unread)
    | none => (.error .malformed, unread)

/-- What came of sending a request. -/
structure Transaction where
  /-- The data of the response. -/
  result : Except AgentError String
  /-- The bytes that were sent. -/
  sent : Bytes
  /-- The bytes of the stream that came back and were not read. -/
  unread : Bytes

/-- Sends a request and takes the response from the stream that comes back.  A request that fits no
    frame is not sent. -/
def Request.transact (request : Request) (reply : Bytes) : Transaction :=
  match Frame.write request.toBytes with
  | .error error => { result := .error error, sent := [], unread := reply }
  | .ok frame =>
    let (result, unread) := Response.read reply
    { result, sent := frame, unread }

/-- A way to reach an agent. -/
structure Line (σ : Type) where
  /-- Opens a connection. -/
  dial : ExceptT AgentError (StateM σ) Unit
  /-- Sends bytes over the connection; all that comes back before it is closed. -/
  exchange : (sent : Bytes) → StateM σ Bytes

/-- The line to an agent that serves one connection with a store. -/
def Line.serving {σ : Type} (store : PasswordStore σ) : Line σ where
  dial := pure ()
  exchange sent := do return (← serve store sent).written

namespace PasswordStore

/-- Sends a request over a line of its own. -/
def send {σ : Type} (line : Line σ) (request : Request) : ExceptT AgentError (StateM σ) String := do
  line.dial
  let frame ← Frame.write request.toBytes
  let reply ← line.exchange frame
  (Response.read reply).1

/-- The store at the other end of a line.  An agent that refuses to give a password does not have
    it. -/
def client {σ : Type} (line : Line σ) : PasswordStore σ where
  get name := do
    try send line (.get name)
    catch
      | .rejected _ _ => throw (.missing name)
      | error => throw error
  set name password := discard <| send line (.set name password)
  reset name := discard <| send line (.reset name)

end PasswordStore

end Lockbox
