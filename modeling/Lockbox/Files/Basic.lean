import Lockbox.Bytes
import Lockbox.Fault
import Lockbox.Files.Path
import Std.Data.ExtTreeMap.Lemmas

namespace Lockbox

/-!
# Files

A tree of directories, files and symbolic links, seen from a working directory.  The tree is kept as
a map from paths to what is there; the root itself is always a directory.  Names and the targets of
links are texts; names that are not UTF-8 are only in a `RawPath`.  There are no owners: whether the
program may do something is for a `Disk` to say.

* `Files.walk` — goes along segments, through links.
* `Files.find` — where a written path leads.
* `Files.slot`, `Files.occupant` — the place in a directory that a written path names, and what is
  there.
-/

/-- What a name in a directory stands for. -/
inductive Entry
  | directory
  /-- A file with its contents and its permissions. -/
  | file (data : Bytes) (mode : Nat)
  /-- A symbolic link to a written path. -/
  | link (target : String)
  deriving DecidableEq, Repr

/-- The names that an entry speaks of: those in the target of a link. -/
def Entry.names : Entry → List String
  | link target => Path.segments target
  | directory | file _ _ => []

/-- A tree of files, seen from a working directory. -/
structure Files where
  /-- What is at each path other than the root. -/
  entries : Std.ExtTreeMap Path Entry := ∅
  /-- Where relative paths start. -/
  workingDirectory : Path := []

namespace Files

/-- What is at a path. -/
def entry? (files : Files) (path : Path) : Option Entry :=
  if path = [] then some .directory else files.entries[path]?

/-- Puts an entry at a path. -/
def insert (files : Files) (path : Path) (entry : Entry) : Files :=
  { files with entries := files.entries.insert path entry }

/-- Removes the entry at a path. -/
def erase (files : Files) (path : Path) : Files :=
  { files with entries := files.entries.erase path }

/-- The path that a written path starts from. -/
def origin (files : Files) (written : String) : Path :=
  if Path.startsAtRoot written then [] else files.workingDirectory

/-! ### Walking -/

/-- Where a walk ends. -/
inductive Place
  /-- At an entry. -/
  | found (path : Path) (entry : Entry)
  /-- At a name that the last directory does not have. -/
  | vacant (path : Path)
  deriving DecidableEq, Repr

/-- The greatest number of bytes in a name. -/
def maxNameSize : Nat := 255

/-- The number of bytes that a written path must stay below. -/
def maxPathSize : Nat := 4096

/-- The greatest number of links on one way. -/
def maxLinks : Nat := 40

/-- What a walk is for. -/
inductive Purpose
  /-- To look at what is there. -/
  | look
  /-- To write a file, which is made if it is not there. -/
  | write
  /-- To make a file where nothing is. -/
  | create
  deriving DecidableEq, Repr

/-- Can a file be made at the end of the walk? -/
def Purpose.makesFile (purpose : Purpose) : Bool := purpose ≠ .look

/-- Goes along segments from a directory.  Only what comes last may be a file or be missing, and no
    file is made under a name that a slash follows.  A link is left to `jump`, with the directory
    and the segments to go on with, unless it comes last where nothing should be. -/
def walkWith (files : Files) (purpose : Purpose) (jump : Path → List String → Except Fault Place)
    (directory : Path) : List String → Except Fault Place
  | [] => .ok (.found directory .directory)
  | segment :: rest =>
    if segment = "" ∨ segment = "." then walkWith files purpose jump directory rest
    else if segment = ".." then walkWith files purpose jump directory.dropLast rest
    else if purpose.makesFile ∧ rest ≠ [] ∧ rest.all (· = "") then .error .isADirectory
    else if segment.utf8ByteSize > maxNameSize then .error .invalidFilename
    else
      let path := directory ++ [segment]
      match files.entry? path with
      | none => if rest = [] then .ok (.vacant path) else .error .notFound
      | some .directory => walkWith files purpose jump path rest
      | some (.file data mode) =>
        if rest = [] then .ok (.found path (.file data mode)) else .error .notADirectory
      | some (.link target) =>
        if rest = [] ∧ purpose = .create then .ok (.found path (.link target))
        else
          jump (if Path.startsAtRoot target then [] else directory) (Path.segments target ++ rest)

/-- Goes along segments from a directory, through at most so many links. -/
def walk (files : Files) (purpose : Purpose) : (links : Nat) → (directory : Path) →
    List String → Except Fault Place
  | 0 => walkWith files purpose fun _ _ => .error .linkLoop
  | links + 1 => walkWith files purpose (walk files purpose links)

/-- Refuses a written path that can name nothing. -/
def check (written : String) : Except Fault Unit :=
  if '\x00' ∈ written.toList then .error .invalidInput
  else if written = "" then .error .notFound
  else if written.utf8ByteSize ≥ maxPathSize then .error .invalidFilename
  else .ok ()

/-- Where a written path leads. -/
def find (files : Files) (purpose : Purpose) (written : String) : Except Fault Place := do
  check written
  files.walk purpose maxLinks (files.origin written) (Path.segments written)

/-- The directory that segments lead to. -/
def enter (files : Files) (directory : Path) (segments : List String) : Except Fault Path := do
  match ← files.walk .look maxLinks directory segments with
  | .found path .directory => return path
  | .found _ _ => throw .notADirectory
  | .vacant _ => throw .notFound

/-! ### Slots -/

/-- A directory entry that can be made, replaced or removed. -/
structure Slot where
  /-- The directory. -/
  directory : Path
  /-- The name in it. -/
  name : String
  /-- Is the name followed by a slash, so that it can only name a directory? -/
  slash : Bool
  deriving DecidableEq, Repr

/-- The path of an entry. -/
def Slot.path (slot : Slot) : Path := slot.directory ++ [slot.name]

/-- The directory entry that a written path names, not followed if it is a link.  The root and the
    two kinds of dots name no entry, which is reported as the caller says. -/
def slot (files : Files) (written : String) (unnamed : Fault) : Except Fault Slot := do
  check written
  let segments := Path.segments written
  match segments.reverse.dropWhile (· = "") with
  | [] => throw unnamed
  | name :: before =>
    let directory ← files.enter (files.origin written) before.reverse
    if name = "." ∨ name = ".." then throw unnamed
    else return { directory, name, slash := segments.getLast? = some "" }

/-- What is in a slot. -/
def occupant (files : Files) (slot : Slot) : Except Fault (Option Entry) :=
  if slot.name.utf8ByteSize > maxNameSize then .error .invalidFilename
  else .ok (files.entry? slot.path)

end Files

end Lockbox
