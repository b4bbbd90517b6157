import Lockbox.Agent.Store
import Lockbox.Credentials.Vault
import Lockbox.Storage

namespace Lockbox

/-!
# What commands act on

A command acts on a `World`: the stored files, an agent that keeps passwords, a terminal to ask at
and the output.  It may fail at any point; what it did before stays done.

* `Console` — a terminal and what is typed at it.
* `World` — everything that a command can see or change.
* `Refusals` — what the disk and the output do not let it do.
* `Failure` — why a command fails, and what it was about.
* `Action` — a step of a command.
-/

/-- A terminal and what is typed at it. -/
structure Console where
  /-- Is there a terminal at all? -/
  hasTerminal : Bool := true
  /-- What is typed, question by question; `none` where the question is broken off. -/
  answers : List (Option String) := []
  /-- What is typed at all further questions. -/
  otherwise : Option String := none
  /-- The questions so far. -/
  shown : List String := []
  deriving DecidableEq, Repr

namespace Console

/-- Asks a question. -/
def ask (question : String) (console : Console) : Except Fault String × Console :=
  if ¬ console.hasTerminal then (.error .noTerminal, console)
  else
    let answer := console.answers.head?.getD console.otherwise
    (match answer with
      | some text => .ok text
      | none => .error .noTerminal,
      { console with
        answers := console.answers.tail
        shown := console.shown ++ [question] })

end Console

/-- Everything that a command can see or change. -/
structure World (σ : Type) extends Storage where
  /-- The state of the agent. -/
  store : σ
  /-- The terminal. -/
  console : Console := {}
  /-- The output so far. -/
  output : Bytes := []

/-- What a command is refused that makes sense in itself.  Where no refusals are spoken of, there are
    none. -/
structure Refusals where
  /-- What the disk refuses. -/
  disk : Disk := .sound
  /-- What the output refuses after what it has taken: of the bytes that it is given next, it takes
      so many before that. -/
  output : (taken next : Bytes) → Option (Nat × Fault) := fun _ _ => none

namespace Refusals

/-- Nothing is refused. -/
def nothing : Refusals := {}

/-- The same refusals, but for an output that takes everything. -/
def printing (refusals : Refusals) : Refusals := { refusals with output := fun _ _ => none }

end Refusals

/-- What is wrong. -/
inductive Cause
  /-- A container cannot be opened, changed or stored, or a file not written. -/
  | storage (error : StorageError)
  /-- An envelope cannot be made or opened. -/
  | envelope (error : EnvelopeError)
  /-- The agent cannot be reached, or refuses. -/
  | agent (error : AgentError)
  /-- The credentials cannot be stored. -/
  | vault (error : VaultError)
  /-- A file cannot be read, nobody answers at the terminal, or the output is refused. -/
  | fault (fault : Fault)
  /-- The location has no canonical form. -/
  | unlocatable (fault : Fault)
  /-- The two passwords typed for a new one differ. -/
  | passwordsDiffer
  /-- There is a container, or something else, at this location already. -/
  | containerExists (location : String)
  deriving DecidableEq, Repr

/-- The wording of what is wrong, without what the world outside says about it. -/
def Cause.message : Cause → String
  | storage error => error.message
  | envelope error => error.message
  | agent error => error.message
  | vault error => error.message
  | fault _ => ""
  | unlocatable _ => "cannot make an empty path absolute"
  | passwordsDiffer => "Passwords not equal"
  | containerExists location => s!"Container '{location}' already exists"

/-- Why a command fails. -/
structure Failure where
  /-- What is wrong. -/
  cause : Cause
  /-- What the command was doing, outermost first. -/
  context : List String := []
  deriving DecidableEq, Repr

/-- The first line of a report on a failure. -/
def Failure.headline (failure : Failure) : String :=
  failure.context.head?.getD failure.cause.message

/-- A step of a command. -/
abbrev Action (σ α : Type) := ExceptT Failure (StateM (World σ)) α

namespace Action

variable {σ α ε : Type}

/-- Fails. -/
def fail (cause : Cause) : Action σ α := throw { cause }

/-- Does what succeeds, and fails for the cause given where it does not. -/
def attempt (cause : ε → Cause) (outcome : Except ε α) : Action σ α :=
  match outcome with
  | .ok result => return result
  | .error error => fail (cause error)

/-- Says what a step is about if it fails. -/
def within (text : String) (action : Action σ α) : Action σ α :=
  action.adapt fun failure => { failure with context := text :: failure.context }

/-- A step on the stored files. -/
def onStorage (cause : ε → Cause) (step : ExceptT ε (StateM Storage) α) : Action σ α := do
  let (outcome, storage) := step.run.run (← get).toStorage
  modify ({ · with toStorage := storage })
  attempt cause outcome

/-- A step on the files alone. -/
def onFiles (cause : ε → Cause) (step : ExceptT ε (StateM Files) α) : Action σ α := do
  let (outcome, files) := step.run.run (← get).files
  modify ({ · with files })
  attempt cause outcome

/-- A step on the agent, with its outcome. -/
def askAgent (step : ExceptT AgentError (StateM σ) α) : Action σ (Except AgentError α) := do
  let (outcome, store) := step.run.run (← get).store
  modify ({ · with store })
  return outcome

/-- Asks a question at the terminal. -/
def ask (question : String) : Action σ String := do
  let (outcome, console) := (← get).console.ask question
  modify ({ · with console })
  attempt .fault outcome

/-- Adds to the output as much as it takes. -/
def emit (bytes : Bytes) (refusals : Refusals := .nothing) : Action σ Unit := do
  match refusals.output (← get).output bytes with
  | none => modify fun world => { world with output := world.output ++ bytes }
  | some (taken, fault) =>
    modify fun world => { world with output := world.output ++ bytes.take taken }
    fail (.fault fault)

/-- Adds a line to the output. -/
def emitLine (text : String) (refusals : Refusals := .nothing) : Action σ Unit :=
  emit (Bytes.ofText text ++ [10]) refusals

/-- The files as they are. -/
def files : Action σ Files := return (← get).files

end Action

end Lockbox
