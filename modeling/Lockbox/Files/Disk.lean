import Lockbox.Files.Basic

namespace Lockbox

/-!
# Disks

A tree of files refuses what makes no sense in it, such as a file in the place of a directory.  The
disk that it is kept on may refuse anything else: for want of a permission or of space, because it
is read-only or because it is broken.  Its grounds are its own, so it refuses with any fault, at
any step, and a file may be left with a part of what should be in it.

* `Disk` — what a disk refuses.
* `Disk.sound` — a disk that refuses nothing.
* `Disk.look` — looking at files, as far as the disk lets it.
* `Disk.make`, `fill`, `settle`, `discard` — changing them.
-/

/-- Adds bytes at the end of the file at a path. -/
def Files.extend (files : Files) (path : Path) (data : Bytes) : Files :=
  match files.entry? path with
  | some (.file old mode) => files.insert path (.file (old ++ data) mode)
  | _ => files

/-- What a disk refuses, given the files that are on it. -/
structure Disk where
  /-- Looking at what a written path leads to. -/
  looking : Files → String → Option Fault := fun _ _ => none
  /-- Making a file at a path. -/
  making : Files → Path → Option Fault := fun _ _ => none
  /-- Adding bytes to the file at a path, and how many of them it takes before that. -/
  filling : Files → Path → Bytes → Option (Nat × Fault) := fun _ _ _ => none
  /-- Making sure of the file at a path. -/
  settling : Files → Path → Option Fault := fun _ _ => none
  /-- Moving the file at a path onto a written path. -/
  moving : Files → Path → String → Option Fault := fun _ _ _ => none
  /-- Removing the file at a path. -/
  removing : Files → Path → Option Fault := fun _ _ => none

namespace Disk

/-- A disk that refuses nothing. -/
def sound : Disk := {}

/-- What is found at a written path, if the disk lets it be looked at. -/
def look {α : Type} (disk : Disk) (files : Files) (written : String) (found : Except Fault α) :
    Except Fault α :=
  match disk.looking files written with
  | none => found
  | some fault => .error fault

/-- Goes on if nothing is refused. -/
def allow : Option Fault → ExceptT Fault (StateM Files) Unit
  | none => return
  | some fault => throw fault

/-- Makes an empty file at a path. -/
def make (disk : Disk) (path : Path) (mode : Nat) : ExceptT Fault (StateM Files) Unit := do
  allow (disk.making (← get) path)
  modify (·.insert path (.file [] mode))

/-- Adds bytes to the file at a path, as many of them as the disk takes. -/
def fill (disk : Disk) (path : Path) (data : Bytes) : ExceptT Fault (StateM Files) Unit := do
  match disk.filling (← get) path data with
  | none => modify (·.extend path data)
  | some (taken, fault) =>
    modify (·.extend path (data.take taken))
    throw fault

/-- Makes sure of the file at a path. -/
def settle (disk : Disk) (path : Path) : ExceptT Fault (StateM Files) Unit := do
  allow (disk.settling (← get) path)

/-- Removes the file at a path.  Nobody hears of it if the disk refuses to. -/
def discard (disk : Disk) (path : Path) : ExceptT Fault (StateM Files) Unit := do
  if (disk.removing (← get) path).isNone then modify (·.erase path)

end Disk

end Lockbox
