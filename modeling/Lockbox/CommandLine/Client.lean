import Lockbox.Agent.Host
import Lockbox.CommandLine.Options
import Lockbox.Session.Commands

namespace Lockbox

/-!
# The command `pwman`

* `Task.run` — carrying out what is to be done.
* `Invocation.ofWords` — what a command line asks for.
* `Client.run` — what comes of it.
-/

/-- What a command line asks for. -/
inductive Task
  | init (location : String) (d : Derivation)
  | list (location : String)
  | get (location name : String)
  | put (location name valueFile : String)
  | delete (location name : String)
  | rename (location name newName : String)
  | encrypt (input : String) (output : Option String) (d : Derivation)
  | decrypt (input : String) (output : Option String)
  | remember (location : String)
  | forget (location : String)
  | obfuscate (user : String)
  | variableNames
  deriving DecidableEq, Repr

/-- Carries out a task in a session. -/
def Task.run {σ : Type} (session : Session σ) (vault : Vault) (task : Task)
    (refusals : Refusals := .nothing) : Action σ Unit :=
  match task with
  | init location d => session.init location d refusals
  | list location => session.list location refusals
  | get location name => session.get location name refusals
  | put location name valueFile => session.put location name valueFile refusals
  | delete location name => session.delete location name refusals
  | rename location name newName => session.rename location name newName refusals
  | encrypt input output d => session.encrypt input output d refusals
  | decrypt input output => session.decrypt input output refusals
  | remember location => session.remember location refusals
  | forget location => session.forget location
  | obfuscate user => Session.obfuscate vault user refusals
  | variableNames => Session.variableNames {} refusals

/-- A command line that makes sense. -/
structure Invocation where
  /-- Is the agent to be reached at a port? -/
  tcp : Bool
  /-- What is to be done. -/
  task : Task
  deriving DecidableEq, Repr

/-- What a command sees of the environment it is run in. -/
structure Environment where
  /-- The location of the container where none is given. -/
  container : Option String := none
  /-- The selector of the cipher suite. -/
  cipher : Option String := none
  /-- The secret that masks stored credentials. -/
  secret : Option Bytes := none
  /-- The path of the home directory. -/
  home : String
  /-- The path of the agent's socket. -/
  socket : String

namespace Invocation

/-- The options that can stand before and after the name of a command. -/
def globalSpecs : List OptionSpec :=
  [{ name := "verbose", letter := some 'v', takesValue := false },
    { name := "tcp", takesValue := false },
    Options.help]

/-- The option for the location of a container. -/
def file : OptionSpec := { name := "file", letter := some 'i' }

/-- The option for a key derivation. -/
def kdf : OptionSpec :=
  { name := "kdf", accepts := fun id => (Derivation.ofId? id).toOption.isSome }

/-- The option for the name of an entry. -/
def key : OptionSpec := { name := "key", letter := some 'k' }

/-- An option for a path, which must not be empty. -/
def path (name : String) (letter : Char) : OptionSpec :=
  { name, letter := some letter, accepts := fun path => path ≠ "" }

/-- The options of a command, if there is one of this name. -/
def specs? (command : String) : Option (List OptionSpec) :=
  match command with
  | "init" => some [file, kdf]
  | "list" | "pwd" | "rst" => some [file]
  | "get" | "del" => some [file, key]
  | "put" => some [file, key, path "data-file" 'd']
  | "rename" => some [file, key, { name := "new-key", letter := some 'n' }]
  | "enc" => some [path "in" 'i', path "out" 'o', kdf]
  | "dec" => some [path "in" 'i', path "out" 'o']
  | "obf" => some [{ name := "user", letter := some 'u' }]
  | "var" => some []
  | _ => none

/-- The location that is given, or else the one in the environment. -/
def location (env : Environment) (given : Options) : Except Interruption String :=
  match given.value? "file" <|> env.container with
  | some location => .ok location
  | none => .error .usage

/-- The key derivation that is given, or else the standard one. -/
def derivation (given : Options) : Except Interruption Derivation :=
  match given.value? "kdf" with
  | none => .ok .standard
  | some id => (Derivation.ofId? id).mapError fun _ => .usage

/-- The task of a command with its options. -/
def taskOf (env : Environment) (given : Options) (command : String) : Except Interruption Task := do
  match command with
  | "init" => return .init (← location env given) (← derivation given)
  | "list" => return .list (← location env given)
  | "get" => return .get (← location env given) (← given.required "key")
  | "put" =>
    return .put (← location env given) (← given.required "key") (← given.required "data-file")
  | "del" => return .delete (← location env given) (← given.required "key")
  | "rename" =>
    return .rename (← location env given) (← given.required "key") (← given.required "new-key")
  | "enc" => return .encrypt (← given.required "in") (given.value? "out") (← derivation given)
  | "dec" => return .decrypt (← given.required "in") (given.value? "out")
  | "pwd" => return .remember (← location env given)
  | "rst" => return .forget (← location env given)
  | "obf" => return .obfuscate (← given.required "user")
  | "var" => return .variableNames
  | _ => throw .usage

/-- What comes of asking for help on what words name: all commands, or one of them. -/
def helpOn : List String → Interruption
  | [] => .help
  | [command] => if command = "help" ∨ (specs? command).isSome then .help else .usage
  | _ => .usage

/-- What the words of a command line ask for. -/
def ofWords (env : Environment) (words : List String) : Except Interruption Invocation := do
  let (outer, words) ← Options.read (Options.version :: globalSpecs) words
  match words with
  | [] => throw .usage
  | "help" :: words => throw (helpOn words)
  | command :: words =>
    let some specs := specs? command | throw .usage
    let (given, words) ← Options.read (globalSpecs ++ specs) words
    if words ≠ [] then throw .usage
    return {
      tcp := outer.has "tcp" || given.has "tcp"
      task := ← taskOf env given command }

end Invocation

/-- How a program ended: its exit code, and its message if it failed. -/
structure Report where
  /-- The exit code. -/
  exit : Nat
  /-- What is said about a failure. -/
  message : Option String := none
  deriving DecidableEq, Repr

/-- The number of this version. -/
def versionNumber : String := "0.1.0"

/-- How a program ends that is not carried out, and what it prints instead. -/
def Interruption.report (program : String) : Interruption → Report × String
  | usage => ({ exit := 2 }, "")
  | help => ({ exit := 0 }, "")
  | version => ({ exit := 0 }, s!"{program} {versionNumber}\n")

namespace Client

/-- The session of an invocation. -/
def session (env : Environment) (invocation : Invocation) : Session Host where
  codec := .ofSuite (.ofSelector env.cipher)
  agent :=
    .client (Host.line (if invocation.tcp then .tcp Endpoint.defaultPort else .unix env.socket))

/-- The record of stored credentials. -/
def vault (env : Environment) : Vault where
  secretName := ({} : Variables).secret
  secret := env.secret
  path := env.home ++ "/.rustpwman"

/-- Carries out an invocation. -/
def perform (env : Environment) (invocation : Invocation) : Action Host Unit :=
  invocation.task.run (session env invocation) (vault env)

/-- Runs the program with the words of its command line. -/
def run (env : Environment) (words : List String) : StateM (World Host) Report := do
  match Invocation.ofWords env words with
  | .error interruption =>
    let (report, text) := interruption.report "pwman"
    modify fun world => { world with output := world.output ++ Bytes.ofText text }
    return report
  | .ok invocation =>
    match ← (perform env invocation).run with
    | .ok () => return { exit := 0 }
    | .error failure => return { exit := 1, message := some failure.headline }

end Client

end Lockbox
