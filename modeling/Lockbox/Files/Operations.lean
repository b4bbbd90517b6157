import Lockbox.Files.Disk

namespace Lockbox.Files

/-!
# Operations on files

What can be asked of a tree of files by written paths.  Reading and writing follow links.  A new
entry is made only where nothing is, not even a dangling link; `writePrivate` replaces whatever file
or link is there in one step.

* `read`, `exists?`, `modeOf`, `list` — looking.
* `create`, `makeDirectory`, `makeLink`, `remove` — changing one entry.
* `makeFile` — making a file as far as the disk lets it.
* `writePrivate` — replacing a file for its owner's eyes only.
-/

/-! ### Looking -/

/-- The contents of a file. -/
def read (files : Files) (written : String) : Except Fault Bytes := do
  match ← files.find .look written with
  | .found _ (.file data _) => return data
  | .found _ _ => throw .isADirectory
  | .vacant _ => throw .notFound

/-- The contents of a file that must be a text. -/
def readText (files : Files) (written : String) : Except Fault String := do
  match (← files.read written).toText? with
  | some text => return text
  | none => throw .invalidData

/-- Does a path lead to anything? -/
def exists? (files : Files) (written : String) : Except Fault Bool :=
  match files.find .look written with
  | .ok (.found _ _) => .ok true
  | .ok (.vacant _) | .error .notFound => .ok false
  | .error fault => .error fault

/-- The permissions of what a path leads to. -/
def modeOf (files : Files) (written : String) : Except Fault Nat := do
  match ← files.find .look written with
  | .found _ (.file _ mode) => return mode
  | .found _ _ => return 0o755
  | .vacant _ => throw .notFound

/-- The names in a directory in ascending order. -/
def list (files : Files) (written : String) : Except Fault (List String) := do
  check written
  let directory ← files.enter (files.origin written) (Path.segments written)
  return files.entries.keys.filterMap fun path =>
    if path.dropLast = directory then path.getLast? else none

/-! ### Changing one entry -/

/-- Makes a file where nothing is. -/
def create (files : Files) (written : String) (data : Bytes) : Except Fault Files := do
  match ← files.find .create written with
  | .vacant path => return files.insert path (.file data 0o644)
  | .found _ _ => throw .alreadyExists

/-- Makes an empty file where nothing is, and gives its path. -/
def makeFile (written : String) (disk : Disk := .sound) : ExceptT Fault (StateM Files) Path := do
  match ← (← get).find .create written with
  | .vacant path =>
    disk.make path 0o644
    return path
  | .found _ _ => throw .alreadyExists

/-- Writes a file, keeping its permissions if it is there. -/
def write (files : Files) (written : String) (data : Bytes) : Except Fault Files := do
  match ← files.find .write written with
  | .vacant path => return files.insert path (.file data 0o644)
  | .found path (.file _ mode) => return files.insert path (.file data mode)
  | .found _ _ => throw .isADirectory

/-- Makes a directory where nothing is. -/
def makeDirectory (files : Files) (written : String) : Except Fault Files := do
  let slot ← files.slot written .alreadyExists
  match ← files.occupant slot with
  | none => return files.insert slot.path .directory
  | some _ => throw .alreadyExists

/-- Makes a symbolic link where nothing is. -/
def makeLink (files : Files) (written target : String) : Except Fault Files := do
  if '\x00' ∈ written.toList then throw .invalidInput
  check target
  let slot ← files.slot written .alreadyExists
  match ← files.occupant slot with
  | none => if slot.slash then throw .notFound else return files.insert slot.path (.link target)
  | some _ => throw .alreadyExists

/-- Removes a file or a link. -/
def remove (files : Files) (written : String) : Except Fault Files := do
  let slot ← files.slot written .isADirectory
  match ← files.occupant slot with
  | none => throw .notFound
  | some .directory => throw .isADirectory
  | some _ => if slot.slash then throw .notADirectory else return files.erase slot.path

/-! ### Replacing a file -/

/-- Moves the file at a path onto a written path, over the file or link that is there. -/
def move (files : Files) (source : Path) (written : String) : Except Fault Files := do
  let slot ← files.slot written .resourceBusy
  let some entry := files.entry? source | throw .notFound
  let occupant ← files.occupant slot
  if slot.slash then throw .notADirectory
  if occupant = some .directory then throw .isADirectory
  return (files.erase source).insert slot.path entry

/-- The names that entries have and that links speak of. -/
def names (files : Files) : List String :=
  files.entries.toList.flatMap fun (path, entry) => path ++ entry.names

/-- The names that temporary files can have. -/
def temporaryName (n : Nat) : String := ".tmp" ++ toString (100000 + n)

/-- A name for a temporary file that nothing else has, and that neither a link nor a written path
    speaks of. -/
def freshName? (files : Files) (written : String) : Option String :=
  let taken := files.names ++ Path.segments written
  ((List.range (taken.length + 1)).map temporaryName).find? (· ∉ taken)

/-- The path of a temporary file beside what a written path names. -/
def temporaryPath (files : Files) (written : String) : Except Fault Path := do
  let parent := Path.parent written
  let some name := files.freshName? written | throw .alreadyExists
  check (Path.join (Path.join files.workingDirectory.render parent) name)
  return (← files.enter (files.origin parent) (Path.segments parent)) ++ [name]

/-- Writes a temporary file and moves it onto a written path. -/
def deliver (temporary : Path) (written : String) (data : Bytes) (disk : Disk := .sound) :
    ExceptT Fault (StateM Files) Unit := do
  disk.fill temporary data
  disk.settle temporary
  Disk.allow (disk.moving (← get) temporary written)
  set (← (← get).move temporary written)

/-- Replaces what a written path names by a file that only its owner can read and write.  The data
    goes to a temporary file in the same directory first, which is then moved over the name, so what
    was there stays as it was unless all goes well. -/
def writePrivate (written : String) (data : Bytes) (disk : Disk := .sound) :
    ExceptT Fault (StateM Files) Unit := do
  let temporary ← (← get).temporaryPath written
  disk.make temporary 0o600
  try deliver temporary written data disk
  catch fault =>
    disk.discard temporary
    throw fault

end Lockbox.Files
