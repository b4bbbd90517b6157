import Lockbox.Container.Text
import Lockbox.Envelope.Codec
import Lockbox.Files.Operations
import Lockbox.Location

namespace Lockbox

/-!
# Stored containers

A container is stored as an envelope in a file.  Remote locations are recognised and refused.  What
else is refused is up to the disk; where none is spoken of, it refuses nothing.

* `Storage.load` — opens the container at a location.
* `Storage.save` — stores a container, with the key derivation that it carries.
-/

/-- The files, and the randomness that new envelopes take. -/
structure Storage where
  /-- The files. -/
  files : Files := {}
  /-- The randomness that has not been used. -/
  entropy : Entropy

/-- Why a container cannot be opened or stored. -/
inductive StorageError
  /-- The location is remote. -/
  | unsupported (location : String)
  /-- The file at the path cannot be read or written. -/
  | access (path : String) (fault : Fault)
  /-- The envelope cannot be made or opened. -/
  | envelope (error : EnvelopeError)
  /-- The container refuses. -/
  | container (error : ContainerError)
  deriving DecidableEq, Repr

/-- The wording of a failure. -/
def StorageError.message : StorageError → String
  | unsupported location => s!"Remote container '{location}' is not supported"
  | access path _ => s!"Unable to access '{path}'"
  | envelope error => error.message
  | container error => error.message

namespace Storage

/-- Refuses a location that has no files behind it. -/
def check (location : String) : Except StorageError Unit :=
  if Location.isRemote location then .error (.unsupported location) else .ok ()

/-- Is there anything at a location? -/
def exists? (files : Files) (location : String) (disk : Disk := .sound) :
    Except StorageError Bool :=
  (disk.look files location (files.exists? location)).mapError (.access location)

/-- The bytes that are stored at a location. -/
def raw (files : Files) (location : String) (disk : Disk := .sound) : Except StorageError Bytes :=
  (disk.look files location (files.read location)).mapError (.access location)

/-- Opens the container at a location. -/
def load (codec : Codec) (files : Files) (location password : String) (disk : Disk := .sound) :
    Except StorageError Container := do
  let stored ← raw files location disk
  let (text, d) ← (codec.decrypt (Bytes.ofText password) stored).mapError .envelope
  (Container.ofText? text d).mapError .container

/-- Replaces what is at a path by a file that only its owner can read and write. -/
def replace (path : String) (data : Bytes) (disk : Disk := .sound) :
    ExceptT StorageError (StateM Storage) Unit := do
  let (outcome, files) := (Files.writePrivate path data disk).run.run (← get).files
  modify ({ · with files })
  outcome.mapError (StorageError.access path)

/-- Wraps a text under a password, and writes the envelope down. -/
def encrypt (codec : Codec) (password : String) (text : Bytes) (d : Derivation) :
    ExceptT EnvelopeError (StateM Storage) Bytes := do
  let (outcome, entropy) :=
    (codec.encrypt (Bytes.ofText password) text d).run.run (← get).entropy
  modify ({ · with entropy })
  outcome

/-- Stores a container at a location. -/
def save (codec : Codec) (location password : String) (container : Container)
    (disk : Disk := .sound) : ExceptT StorageError (StateM Storage) Unit := do
  let stored ← (encrypt codec password container.toText container.derivation).adapt .envelope
  replace location stored disk

end Storage

end Lockbox
