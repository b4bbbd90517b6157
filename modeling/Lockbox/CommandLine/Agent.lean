import Lockbox.CommandLine.Client

namespace Lockbox

/-!
# The command `pwserv`

* `AgentInvocation.ofWords` — what a command line asks for.
* `AgentInvocation.start` — starts the agent on a host.
-/

/-- How an agent is to be run. -/
structure AgentInvocation where
  /-- The port to listen at, if it is not a socket. -/
  port : Option Nat
  /-- How to go about connections. -/
  mode : ServeMode
  deriving DecidableEq, Repr

namespace AgentInvocation

/-- The number that decimal digits stand for, if there are only digits. -/
def number? (digits : List Char) : Option Nat :=
  if digits ≠ [] ∧ digits.all Char.isDigit then
    some (digits.foldl (fun n c => n * 10 + (c.toNat - '0'.toNat)) 0)
  else none

/-- The port that a text names, with or without a sign. -/
def port? (text : String) : Option Nat :=
  let port := match text.toList with
    | '+' :: digits => number? digits
    | '-' :: digits => (number? digits).filter (· = 0)
    | digits => number? digits
  port.filter (· < 65536)

/-- The options. -/
def specs : List OptionSpec :=
  [{ name := "verbose", letter := some 'v', takesValue := false },
    { name := "tcp", takesValue := false },
    { name := "port", accepts := fun text => (port? text).isSome },
    { name := "concurrent", takesValue := false },
    Options.help, Options.version]

/-- What the words of a command line ask for. -/
def ofWords (words : List String) : Except Interruption AgentInvocation := do
  let (given, words) ← Options.read specs words
  if words ≠ [] then throw .usage
  if given.has "port" ∧ ¬ given.has "tcp" then throw .usage
  let port := ((given.value? "port").bind port?).getD Endpoint.defaultPort
  return {
    port := if given.has "tcp" then some port else none
    mode := if given.has "concurrent" then .concurrent else .sequential }

/-- Where the agent is to listen. -/
def endpoint (invocation : AgentInvocation) (env : Environment) : Endpoint :=
  match invocation.port with
  | some port => .tcp port
  | none => .unix env.socket

/-- Starts the agent on a host. -/
def start (invocation : AgentInvocation) (env : Environment) (host : Host) :
    Except AgentError Host :=
  host.start (invocation.endpoint env) invocation.mode

end AgentInvocation

end Lockbox
