import Lockbox.Agent.Exchange

namespace Lockbox

/-!
# The agent at work

The agent as a machine: clients connect, send bytes piece by piece, stop sending or go away; the
agent accepts connections, serves the first request of each, writes the response piece by piece and
closes the connection.  A sequential agent finishes a connection before it accepts the next, a
concurrent one does not.  It can be told to stop at any time, and then drops connections whatever
they have got to.

* `Connection` — a connection, and what can become of it.
* `Server.Event`, `Server.step?`, `Server.run?` — what can happen, and what comes of it.
* `Server.settle` — lets the agent work until it has to wait for a client.
-/

/-- How an agent goes about its connections. -/
inductive ServeMode
  | sequential
  | concurrent
  deriving DecidableEq, Repr

/-- How far a connection has got. -/
inductive Progress
  /-- Not yet accepted. -/
  | queued
  /-- Accepted; the request is still to be served. -/
  | reading
  /-- The request has been served; so much of the response has been written, and so much is left. -/
  | writing (written rest : Bytes)
  /-- Closed, after the whole response was written. -/
  | closed (reply : Bytes)
  /-- Given up, after these bytes were written. -/
  | dropped (written : Bytes)
  deriving DecidableEq, Repr

/-- How far a connection has got once its request has been served.  If the response fits no frame,
    the connection is given up. -/
def Served.progress (served : Served) : Progress :=
  match served.outcome with
  | .ok () => .writing [] served.written
  | .error _ => .dropped []

/-- A connection. -/
structure Connection where
  /-- What the client has sent so far. -/
  received : Bytes := []
  /-- Has the client stopped sending? -/
  ended : Bool := false
  /-- Has the client gone away, so that writing to it fails? -/
  gone : Bool := false
  /-- How far the connection has got. -/
  progress : Progress := .queued
  deriving DecidableEq, Repr

namespace Connection

/-- Is the agent busy with this connection? -/
def isOpen (c : Connection) : Bool :=
  match c.progress with
  | .reading | .writing _ _ => true
  | .queued | .closed _ | .dropped _ => false

/-- What has been written on the connection. -/
def written (c : Connection) : Bytes :=
  match c.progress with
  | .queued | .reading => []
  | .writing written _ | .closed written | .dropped written => written

/-- Has the client sent a whole frame? -/
def hasRequest (c : Connection) : Bool := (Frame.read c.received).1 matches .ok _

/-- The client sends bytes. -/
def deliver? (bytes : Bytes) (c : Connection) : Option Connection :=
  if c.ended then none else some { c with received := c.received ++ bytes }

/-- The agent accepts the connection. -/
def accept? (c : Connection) : Option Connection :=
  if c.progress = .queued then some { c with progress := .reading } else none

/-- The agent writes so many bytes of the response, or all that are left. -/
def write? (n : Nat) (c : Connection) : Option Connection :=
  match c.progress with
  | .writing written rest =>
    if rest = [] ∨ n = 0 then none
    else some { c with progress := .writing (written ++ rest.take n) (rest.drop n) }
  | _ => none

/-- The agent closes the connection once the response has been written. -/
def close? (c : Connection) : Option Connection :=
  match c.progress with
  | .writing written [] => some { c with progress := .closed written }
  | _ => none

/-- The agent gives up. -/
def drop? (c : Connection) : Option Connection :=
  if c.isOpen then some { c with progress := .dropped c.written } else none

/-- The agent gives up since the client has gone away, or has stopped within its first frame. -/
def fail? (c : Connection) : Option Connection :=
  if c.gone ∨ c.progress = .reading ∧ c.ended ∧ ¬ c.hasRequest then c.drop? else none

end Connection

/-- How far an agent has got with stopping. -/
inductive Phase
  | running
  /-- Told to stop; a connection may still be accepted or finished. -/
  | stopping
  /-- No connection is accepted any more. -/
  | stopped
  deriving DecidableEq, Repr

/-- An agent with its connections, in the order in which they came. -/
structure Server where
  /-- How it goes about its connections. -/
  mode : ServeMode
  /-- The passwords. -/
  cache : Cache := ∅
  /-- All connections so far. -/
  connections : List Connection := []
  /-- How far it has got with stopping. -/
  phase : Phase := .running

namespace Server

/-- What can happen. -/
inductive Event
  /-- A client connects. -/
  | connect
  /-- A client sends bytes. -/
  | deliver (connection : Nat) (bytes : Bytes)
  /-- A client stops sending. -/
  | finish (connection : Nat)
  /-- A client goes away. -/
  | vanish (connection : Nat)
  /-- The agent accepts a connection. -/
  | accept (connection : Nat)
  /-- The agent serves the request of a connection. -/
  | execute (connection : Nat)
  /-- The agent writes so many bytes of a response, or all that are left. -/
  | write (connection : Nat) (n : Nat)
  /-- The agent closes a connection after the response. -/
  | close (connection : Nat)
  /-- The agent gives up a connection because of its client. -/
  | fail (connection : Nat)
  /-- The agent is told to stop. -/
  | shutdown
  /-- The agent, told to stop, drops a connection. -/
  | abandon (connection : Nat)
  /-- The agent, told to stop, stops accepting connections. -/
  | stop
  deriving DecidableEq, Repr

/-- Does the agent have to finish a connection before it turns to anything else? -/
def isBusy (s : Server) : Bool := s.mode = .sequential ∧ s.connections.any Connection.isOpen

/-- The machine with one connection changed. -/
def update (s : Server) (i : Nat) (c : Connection) : Server :=
  { s with connections := s.connections.set i c }

/-- Changes one connection, if it can be changed so. -/
def change? (s : Server) (i : Nat) (change : Connection → Option Connection) : Option Server := do
  return s.update i (← change (← s.connections[i]?))

/-- Serves the request of a connection, once it is there. -/
def execute? (s : Server) (i : Nat) : Option Server := do
  let c ← s.connections[i]?
  if c.progress = .reading ∧ c.hasRequest then
    let (served, cache) := (serve PasswordStore.cache c.received).run s.cache
    return { s.update i { c with progress := served.progress } with cache }
  else none

/-- What comes of an event; `none` if it cannot happen. -/
def step? (s : Server) : Event → Option Server
  | .connect =>
    if s.phase = .stopped then none else some { s with connections := s.connections ++ [{}] }
  | .deliver i bytes => s.change? i (·.deliver? bytes)
  | .finish i => s.change? i fun c => some { c with ended := true }
  | .vanish i => s.change? i fun c => some { c with ended := true, gone := true }
  | .accept i => if s.phase = .stopped ∨ s.isBusy then none else s.change? i (·.accept?)
  | .execute i => s.execute? i
  | .write i n => s.change? i (·.write? n)
  | .close i => s.change? i (·.close?)
  | .fail i => s.change? i (·.fail?)
  | .shutdown => some (if s.phase = .running then { s with phase := .stopping } else s)
  | .abandon i => if s.phase = .running then none else s.change? i (·.drop?)
  | .stop => if s.phase = .stopping ∧ ¬ s.isBusy then some { s with phase := .stopped } else none

/-- What comes of events that happen one after the other. -/
def run? (s : Server) (events : List Event) : Option Server := events.foldlM step? s

/-- Lets the first of these events happen that can. -/
def stepFirst? (s : Server) (events : List Event) : Option Server := events.findSome? s.step?

/-- What the agent itself can do while it is running, in the order in which it does it.  It writes a
    response at once, and accepts the connection that has waited longest. -/
def ownEvents (s : Server) : List Event :=
  let all := List.range s.connections.length
  all.map (.write · (Frame.maxSize + 2)) ++ all.map .close ++ all.map .execute ++ all.map .fail ++
    all.map .accept

/-- Lets the agent work for so many steps, or until it has to wait. -/
def work (s : Server) : Nat → Server
  | 0 => s
  | n + 1 => match s.stepFirst? s.ownEvents with
    | some s => work s n
    | none => s

/-- Lets the agent work until it has to wait for a client.  Each connection takes four steps. -/
def settle (s : Server) : Server := s.work (4 * s.connections.length)

/-- What has been written on a connection. -/
def reply (s : Server) (i : Nat) : Bytes := (s.connections[i]?.map Connection.written).getD []

end Server

end Lockbox
