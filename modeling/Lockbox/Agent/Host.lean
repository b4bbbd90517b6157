import Lockbox.Agent.Server

namespace Lockbox

/-!
# Where an agent listens

An agent listens at an endpoint, a socket in the file system or a port.  A `Host` is what a client
finds when it connects: nothing, something that nobody listens at, or an agent.

* `Endpoint` — where to listen and where to connect to.
* `Host.start`, `Host.stop` — starting and stopping an agent.
* `Host.line` — the line from a client on the host to an endpoint.
-/

/-- Where an agent listens. -/
inductive Endpoint
  /-- At a socket in the file system. -/
  | unix (path : String)
  /-- At a port for connections from the same host. -/
  | tcp (port : Nat)
  deriving DecidableEq, Repr

namespace Endpoint

/-- The port where no other is given. -/
def defaultPort : Nat := 4567

/-- The kind of an endpoint. -/
def kind : Endpoint → String
  | unix _ => "unix"
  | tcp _ => "tcp"

/-- An endpoint as text. -/
def address : Endpoint → String
  | unix path => path
  | tcp port => s!"127.0.0.1:{port}"

end Endpoint

/-- What is at the path of a socket. -/
inductive Occupant
  | nothing
  /-- A socket, or another file. -/
  | file
  | directory
  deriving DecidableEq, Repr

/-- A host on which an agent can run. -/
structure Host where
  /-- Can the host connect to itself? -/
  loopback : Bool := true
  /-- What is at the path of the socket. -/
  socket : Occupant := .nothing
  /-- The agent that is running, and where it listens. -/
  agent : Option (Endpoint × Server) := none

namespace Host

/-- Does the agent listen at a port?  The port 0 stands for any that is free. -/
def occupies (host : Host) (port : Nat) : Bool :=
  port ≠ 0 ∧ host.agent.any fun (listening, _) => listening = .tcp port

/-- Starts an agent, unless its port is taken.  A file that is left at the path of the socket is
    removed first; the socket stays there when the agent stops. -/
def start (host : Host) (endpoint : Endpoint) (mode : ServeMode) : Except AgentError Host :=
  let agent := some (endpoint, { mode })
  match endpoint with
  | .unix _ =>
    if host.socket = .directory then .error (.transport .isADirectory)
    else .ok { host with socket := .file, agent }
  | .tcp port =>
    if host.occupies port then .error (.transport .addressInUse)
    else .ok { host with agent }

/-- Stops the agent. -/
def stop (host : Host) : Host := { host with agent := none }

/-- Finds the agent that listens at an endpoint. -/
def dial (host : Host) (endpoint : Endpoint) : Except Fault Server :=
  match endpoint, host.agent with
  | .unix path, some (.unix listening, server) =>
    if path = listening then .ok server else .error .notFound
  | .unix _, _ => .error (if host.socket = .nothing then .notFound else .connectionRefused)
  | .tcp port, agent =>
    if ¬ host.loopback then .error .networkUnreachable
    else match agent with
      | some (.tcp listening, server) =>
        if port = listening then .ok server else .error .connectionRefused
      | _ => .error .connectionRefused

/-- Connects, sends bytes and, if told so, stops sending.  Gives what comes back. -/
def send (host : Host) (endpoint : Endpoint) (bytes : Bytes) (finish : Bool) :
    Except Fault (Bytes × Host) := do
  let server ← host.dial endpoint
  let i := server.connections.length
  let events := [.connect, .deliver i bytes] ++ if finish then [Server.Event.finish i] else []
  let server := ((server.run? events).getD server).settle
  return (server.reply i, { host with agent := some (endpoint, server) })

/-- The line from a client on the host to an endpoint. -/
def line (endpoint : Endpoint) : Line Host where
  dial := do
    match (← getThe Host).dial endpoint with
    | .ok _ => return ()
    | .error fault => throw (.transport fault)
  exchange sent := do
    match (← getThe Host).send endpoint sent true with
    | .ok (reply, host) => set host; return reply
    | .error _ => return []

end Host

end Lockbox
