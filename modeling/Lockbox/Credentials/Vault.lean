import Lockbox.Cipher.Cfb8
import Lockbox.Credentials.Record
import Lockbox.Encoding.Utf8
import Lockbox.Files.Operations

namespace Lockbox

/-!
# Stored credentials

The credentials for a remote storage are kept in a record whose password is masked by a secret from
the environment.  The masking keeps the password from being read in passing: with a wrong secret
another password comes out, not an error.

* `Vault.store`, `Vault.obfuscate` — writes a record where none is.
* `Vault.deobfuscate` — reads it back.
-/

/-- Where the credentials are and what masks them. -/
structure Vault where
  /-- The name of the environment variable that holds the secret. -/
  secretName : String
  /-- The value of that variable, if it is set. -/
  secret : Option Bytes
  /-- The written path of the record. -/
  path : String

/-- Why credentials cannot be stored or read. -/
inductive VaultError
  /-- The environment variable of this name holds no secret. -/
  | noSecret (secretName : String)
  /-- Something is at the path of the record already. -/
  | alreadyExists (path : String)
  /-- The text at the path holds no record. -/
  | unparseable (path : String)
  /-- The record cannot be read or written. -/
  | files (fault : Fault)
  deriving DecidableEq, Repr

/-- The wording of a failure. -/
def VaultError.message : VaultError → String
  | noSecret secretName => s!"Environment variable '{secretName}' not set"
  | alreadyExists path => s!"Config already exists: {path}"
  | unparseable path => s!"Config could not be parsed: {path}"
  | files _ => "IO error"

/-- Why a record cannot be made at a path. -/
def VaultError.ofMaking (path : String) : Fault → VaultError
  | .alreadyExists => alreadyExists path
  | fault => files fault

namespace Vault

/-- The cryptor of the secret, which must be a text that is not empty. -/
def cryptor (vault : Vault) : Except VaultError Cfb8 :=
  match vault.secret.bind Bytes.toText? with
  | none | some "" => .error (.noSecret vault.secretName)
  | some secret => .ok (Cfb8.ofSecret (Bytes.ofText secret))

/-- Adds a line to the record at a path. -/
def writeLine (path : Path) (line : List Char) (disk : Disk := .sound) :
    ExceptT VaultError (StateM Files) Unit :=
  (disk.fill path (Bytes.ofText (String.ofList (line ++ ['\n'])))).adapt .files

/-- Adds both lines to the record at a path. -/
def writeLines (path : Path) (user : String) (masked : Bytes) (disk : Disk := .sound) :
    ExceptT VaultError (StateM Files) Unit := do
  writeLine path (Record.userLine user) disk
  writeLine path (Record.passwordLine masked) disk

/-- Writes a record where none is: an empty file first, then its lines, as many of their bytes as the
    disk takes.  What has been written is left there. -/
def store (vault : Vault) (user password : String) (disk : Disk := .sound) :
    ExceptT VaultError (StateM Files) Unit := do
  let cryptor ← vault.cryptor
  let files ← get
  if disk.look files vault.path (files.exists? vault.path) matches .ok true then
    throw (.alreadyExists vault.path)
  let masked := (cryptor.encrypt (Bytes.ofText password)).1
  let path ← (Files.makeFile vault.path disk).adapt (.ofMaking vault.path)
  writeLines path user masked disk

/-- Writes a record where none is. -/
def obfuscate (vault : Vault) (user password : String) (files : Files) :
    Except VaultError Files :=
  let (outcome, after) := (vault.store user password).run.run files
  outcome.map fun _ => after

/-- The user and the password in the record. -/
def deobfuscate (vault : Vault) (files : Files) : Except VaultError (String × String) := do
  let cryptor ← vault.cryptor
  let text ← (files.readText vault.path).mapError .files
  match Record.ofText? text with
  | some record => return (record.user, (cryptor.decrypt record.masked).1.toTextLossy)
  | none => throw (.unparseable vault.path)

end Vault

end Lockbox
