import Lockbox.Files.Operations
import Lockbox.Proofs.Files.Walk
import Lockbox.Proofs.Steps

namespace Lockbox

/-!
# What disks do

A step on a disk does what it should, or it is refused.  Only one that adds bytes does a part of it
then.

* `Disk.run_allow`, `run_make`, `run_fill`, `run_settle`, `run_discard` — what comes of each step.
* `Files.run_makeFile` — what comes of making a file where nothing is.
-/

namespace Disk

/-- A sound disk lets everything be looked at. -/
@[simp] theorem look_sound {α : Type} (files : Files) (written : String) (found : Except Fault α) :
    sound.look files written found = found := rfl

/-- What is refused changes nothing. -/
theorem run_allow (refusal : Option Fault) (files : Files) :
    (allow refusal).run files = (match refusal with
      | none => .ok ()
      | some fault => .error fault, files) := by
  cases refusal <;> rfl

/-- What comes of making an empty file. -/
theorem run_make (disk : Disk) (path : Path) (mode : Nat) (files : Files) :
    (disk.make path mode).run files =
      match disk.making files path with
      | none => (.ok (), files.insert path (.file [] mode))
      | some fault => (.error fault, files) := by
  unfold make
  rw [run_bind_of_ok (run_get files), run_bind, run_allow]
  cases disk.making files path <;> rfl

/-- What comes of adding bytes to a file. -/
theorem run_fill (disk : Disk) {path : Path} (h : path ≠ []) (data old : Bytes) (mode : Nat)
    (files : Files) :
    (disk.fill path data).run (files.insert path (.file old mode)) =
      match disk.filling (files.insert path (.file old mode)) path data with
      | none => (.ok (), files.insert path (.file (old ++ data) mode))
      | some (taken, fault) =>
        (.error fault, files.insert path (.file (old ++ data.take taken) mode)) := by
  unfold fill
  rw [run_bind_of_ok (run_get _)]
  cases disk.filling (files.insert path (.file old mode)) path data with
  | none =>
    dsimp only
    rw [run_modify, Files.extend_insert h]
  | some refusal =>
    dsimp only
    rw [run_bind_of_ok (run_modify _ _), Files.extend_insert h]
    rfl

/-- Making sure of a file changes nothing. -/
theorem run_settle (disk : Disk) (path : Path) (files : Files) :
    (disk.settle path).run files = (match disk.settling files path with
      | none => .ok ()
      | some fault => .error fault, files) := by
  unfold settle
  rw [run_bind_of_ok (run_get files), run_allow]

/-- A file that is removed is gone, unless the disk refuses to remove it. -/
theorem run_discard (disk : Disk) (path : Path) (files : Files) :
    (disk.discard path).run files =
      (.ok (), if (disk.removing files path).isNone then files.erase path else files) := by
  unfold discard
  rw [run_bind_of_ok (run_get files)]
  split <;> rfl

end Disk

/-- What comes of making a file where nothing is. -/
theorem Files.run_makeFile (files : Files) (written : String) (disk : Disk) :
    (makeFile written disk).run files =
      match files.find .create written with
      | .error fault => (.error fault, files)
      | .ok (.found _ _) => (.error .alreadyExists, files)
      | .ok (.vacant path) =>
        match disk.making files path with
        | none => (.ok path, files.insert path (.file [] 0o644))
        | some fault => (.error fault, files) := by
  unfold makeFile
  rw [run_bind_of_ok (run_get files), run_bind, run_liftM_except]
  cases files.find .create written with
  | error fault => rfl
  | ok place =>
    cases place with
    | found path entry => rfl
    | vacant path =>
      dsimp only
      rw [run_bind, Disk.run_make]
      cases disk.making files path <;> rfl

end Lockbox
