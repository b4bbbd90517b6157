import Lockbox.Session.Password

namespace Lockbox

/-!
# Commands

What can be done with containers, with single files, with the agent and with stored credentials.  A
command writes its output only after everything else has gone well.  By then it is too late to take
back what it did if the output is refused.

* `Session.init`, `list`, `get`, `put`, `delete`, `rename` — containers.
* `Session.encrypt`, `decrypt` — single files.
* `Session.remember`, `forget` — passwords kept by the agent.
* `Session.obfuscate` — stored credentials.
-/

/-- How commands encrypt, and which agent they ask. -/
structure Session (σ : Type) where
  /-- How texts are wrapped. -/
  codec : Codec
  /-- The agent. -/
  agent : PasswordStore σ

/-- The environment variables that commands look at. -/
structure Variables where
  /-- The location of the container where none is given. -/
  container : String := "PWMANFILE"
  /-- The cipher suite. -/
  cipher : String := "PWMAN_CIPHER"
  /-- The secret that masks stored credentials. -/
  secret : String := "RUSTPWMAN_OBFUSCATION"

namespace Session

open Lockbox.Action

variable {σ : Type} (session : Session σ)

/-! ### Steps that commands share -/

/-- Opens a container with a password. -/
def openWith (location password : String) (refusals : Refusals := .nothing) :
    Action σ Container := do
  within s!"Unable to open container '{location}'" <|
    attempt .storage (Storage.load session.codec (← files) location password refusals.disk)

/-- Gets the password of a container, and opens it. -/
def unlock (location : String) (refusals : Refusals := .nothing) :
    Action σ (Container × String) := do
  attempt .storage (Storage.check location)
  let password ← within "Unable to read password" (password session.agent location)
  return (← session.openWith location password refusals, password)

/-- Opens a container, changes it and stores it again under the same password. -/
def modify {α : Type} (location : String)
    (edit : Container → Except ContainerError (α × Container)) (refusals : Refusals := .nothing) :
    Action σ α := do
  let (container, password) ← session.unlock location refusals
  let (result, container) ← attempt (.storage ∘ .container) (edit container)
  within s!"Unable to save container '{location}'" <|
    onStorage .storage (Storage.save session.codec location password container refusals.disk)
  return result

/-! ### Containers -/

/-- Makes a container where nothing is. -/
def init (location : String) (d : Derivation) (refusals : Refusals := .nothing) :
    Action σ Unit := do
  attempt .storage (Storage.check location)
  if ← attempt .storage (Storage.exists? (← files) location refusals.disk) then
    fail (.containerExists location)
  let password ← newPassword
  onStorage .storage (Storage.save session.codec location password (.empty d) refusals.disk)

/-- Writes the names of all entries. -/
def list (location : String) (refusals : Refusals := .nothing) : Action σ Unit := do
  let (container, _) ← session.unlock location refusals
  emit (container.names.flatMap fun name => Bytes.ofText name ++ [10]) refusals

/-- Writes the text of an entry. -/
def get (location name : String) (refusals : Refusals := .nothing) : Action σ Unit := do
  let (container, _) ← session.unlock location refusals
  emitLine (← attempt (.storage ∘ .container) (container.get name)) refusals

/-- Adds an entry or replaces its text, which is read from a file. -/
def put (location name valueFile : String) (refusals : Refusals := .nothing) :
    Action σ Unit := do
  let files ← files
  let text ← within s!"Unable to load value data from '{valueFile}'" <|
    attempt .fault (refusals.disk.look files valueFile (files.readText valueFile))
  let replaced ←
    session.modify location (fun container => .ok (container.upsert name text)) refusals
  emitLine (if replaced then "Entry replaced" else "Entry added") refusals

/-- Removes an entry. -/
def delete (location name : String) (refusals : Refusals := .nothing) : Action σ Unit :=
  session.modify location (fun container => return ((), ← container.delete name)) refusals

/-- Gives an entry another name. -/
def rename (location name newName : String) (refusals : Refusals := .nothing) : Action σ Unit :=
  session.modify location (fun container => return ((), ← container.rename name newName)) refusals

/-! ### Single files -/

/-- Encrypts a file, to another file or to the output. -/
def encrypt (input : String) (output : Option String) (d : Derivation)
    (refusals : Refusals := .nothing) : Action σ Unit := do
  let files ← files
  let text ← within s!"Unable to read '{input}'" <|
    attempt .fault (refusals.disk.look files input (files.read input))
  let password ← newPassword
  let stored ← within "Unable to encrypt data" <|
    onStorage .envelope (Storage.encrypt session.codec password text d)
  match output with
  | some path => onStorage .storage (Storage.replace path stored refusals.disk)
  | none => emit (stored ++ [10]) refusals

/-- Decrypts a file, to another file or to the output. -/
def decrypt (input : String) (output : Option String) (refusals : Refusals := .nothing) :
    Action σ Unit := do
  let files ← files
  let stored ← within s!"Unable to read '{input}'" <|
    attempt .fault (refusals.disk.look files input (files.read input))
  let password ← password session.agent input
  let (text, _) ← within s!"Unable to decrypt '{input}'" <|
    attempt .envelope (session.codec.decrypt (Bytes.ofText password) stored)
  match output with
  | some path => onStorage .storage (Storage.replace path text refusals.disk)
  | none => emit text refusals

/-! ### The agent -/

/-- Gives the agent a password that has been typed and opens the container. -/
def remember (location : String) (refusals : Refusals := .nothing) : Action σ Unit := do
  attempt .storage (Storage.check location)
  let password ← ask Question.password
  let _ ← session.openWith location password refusals
  let name ← attempt .unlocatable (Location.fingerprint (← files).workingDirectory location)
  within "Unable to set password in pwserv" do
    attempt .agent (← askAgent (session.agent.set name password))

/-- Makes the agent forget the password of a container. -/
def forget (location : String) : Action σ Unit := do
  let name ← attempt .unlocatable (Location.fingerprint (← files).workingDirectory location)
  within "Unable to reset password in pwserv" do
    attempt .agent (← askAgent (session.agent.reset name))

/-! ### Others -/

/-- Stores the credentials of a user. -/
def obfuscate (vault : Vault) (user : String) (refusals : Refusals := .nothing) :
    Action σ Unit := do
  let password ← newPassword
  onFiles .vault (vault.store user password refusals.disk)
  emitLine s!"Credentials written to {vault.path}" refusals

/-- Writes the names of the environment variables that commands look at. -/
def variableNames (names : Variables) (refusals : Refusals := .nothing) : Action σ Unit := do
  emitLine names.container refusals
  emitLine names.cipher refusals
  emitLine names.secret refusals

end Session

end Lockbox
