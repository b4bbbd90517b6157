import Lockbox.CommandLine.Client

/-!
# The program `pwman`

The files that a command speaks of are read into a `World`, the command is run on it, and what has
changed is written back.  Questions are asked at the terminal as they come up.  There is no way from
here to a running agent, so passwords are always asked for.

* `Program.load`, `Program.store` — between the files of the machine and `Files`.
* `Program.converse` — runs a command and asks its questions.
-/

namespace Lockbox

/-- The paths that a task reads or writes. -/
def Task.paths (record : String) : Task → List String
  | init location _ | list location | get location _ | delete location _ => [location]
  | rename location _ _ | remember location => [location]
  | put location _ valueFile => [location, valueFile]
  | encrypt input output _ | decrypt input output => input :: output.toList
  | obfuscate _ => [record]
  | forget _ | variableNames => []

namespace Program

/-- Adds a directory and all directories above it. -/
def withDirectory (files : Files) (path : Path) : Files :=
  (List.range path.length).foldl (fun files n => files.insert (path.take (n + 1)) .directory) files

/-- Adds the file at a path, if there is one, and the directories above it. -/
def load (files : Files) (written : String) : IO Files := do
  let path := Path.absolute files.workingDirectory written
  let files := withDirectory files path.dropLast
  match ← (IO.FS.readBinFile written).toBaseIO with
  | .ok data => return files.insert path (.file data.data.toList 0o600)
  | .error _ => return files

/-- Writes the file at a path if it is not what it was.  The data goes to another file first. -/
def store (before after : Files) (written : String) : IO Unit := do
  let path := Path.absolute before.workingDirectory written
  if after.entry? path = before.entry? path then return
  match after.entry? path with
  | some (.file data mode) =>
    let temporary := written ++ ".tmp"
    let others : IO.AccessRight := { read := mode % 8 ≥ 4 }
    IO.FS.writeBinFile temporary ⟨data.toArray⟩
    IO.setAccessRights temporary
      { user := { read := true, write := true }, group := others, other := others }
    IO.FS.rename temporary written
  | _ => return

/-- Runs a command, and asks at most so many questions. -/
def converse (env : Environment) (words : List String) (world : World Host) :
    (questions : Nat) → IO (Report × World Host)
  | 0 => return (Client.run env words).run world
  | questions + 1 => do
    let (report, after) := (Client.run env words).run world
    match after.console.shown.drop world.console.answers.length with
    | [] => return (report, after)
    | question :: _ =>
      (← IO.getStderr).putStr question
      let line ← (← IO.getStdin).getLine
      let answer := if line = "" then none else some (String.ofList (line.toList.filter (· ≠ '\n')))
      let console := { world.console with answers := world.console.answers ++ [answer] }
      converse env words { world with console } questions

/-- The stream of random bytes that starts with these. -/
def entropyOf (bytes : ByteArray) : Entropy where
  stream i := bytes.data.getD i 0
  position := 0

/-- The environment of the program. -/
def environment : IO Environment := do
  let names : Variables := {}
  let user := (← IO.getEnv "USER").getD "user"
  return {
    container := ← IO.getEnv names.container
    cipher := ← IO.getEnv names.cipher
    secret := (← IO.getEnv names.secret).map Bytes.ofText
    home := (← IO.getEnv "HOME").getD "/"
    socket := s!"/tmp/{user}.pwman" }

end Program

end Lockbox

section

open Lockbox Lockbox.Program

/-- Runs the words of the command line, and ends with the exit code of the report. -/
def main (words : List String) : IO UInt32 := do
  let env ← environment
  let paths := match Invocation.ofWords env words with
    | .ok invocation => invocation.task.paths (Client.vault env).path
    | .error _ => []
  let workingDirectory := Path.absolute [] (toString (← IO.currentDir))
  let files ← paths.foldlM load (withDirectory { workingDirectory } workingDirectory)
  let entropy := entropyOf (← IO.getRandomBytes 256)
  let (report, after) ← converse env words { files, entropy, store := {} } 2
  paths.forM (store files after.files)
  (← IO.getStdout).write ⟨after.output.toArray⟩
  if let some message := report.message then (← IO.getStderr).putStrLn s!"Error: {message}"
  return UInt32.ofNat report.exit

end
