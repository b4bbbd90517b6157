import Lockbox.Credentials.Vault
import Lockbox.Proofs.Bytes
import Lockbox.Proofs.Files.Create
import Lockbox.Proofs.Files.Disk

namespace Lockbox

/-!
# Storing credentials

A record is made empty, and then it is given its two lines.  A disk that takes the empty file and
not all of the lines leaves a part of a record, which is in the way of the next one; otherwise a
record is stored as a whole or not at all.

* `Vault.written`, `ofText_written` — the text that is stored for credentials.
* `Vault.run_writeLine`, `writeLines_cases` — what comes of adding its lines to a file.
* `Vault.run_store`, `store_cases` — what comes of storing credentials on any disk.
* `Vault.run_store_sound`, `obfuscate_eq` — what comes of it if nothing is refused.
-/

namespace Vault

variable {vault : Vault} {user password : String} {c : Cfb8}

/-! ### Records -/

/-- A password as it stands in a record. -/
def mask (c : Cfb8) (password : String) : Bytes := (c.encrypt (Bytes.ofText password)).1

/-- The text that is stored for credentials. -/
def written (c : Cfb8) (user password : String) : String :=
  Record.toText { user, masked := mask c password }

/-- The bytes of a line. -/
def lineBytes (line : List Char) : Bytes := Bytes.ofText (String.ofList (line ++ ['\n']))

/-- A record is the bytes of its lines. -/
theorem ofText_written (c : Cfb8) (user password : String) :
    Bytes.ofText (written c user password) =
      lineBytes (Record.userLine user) ++ lineBytes (Record.passwordLine (mask c password)) := by
  unfold written Record.toText lineBytes
  rw [Bytes.ofText_ofList, List.flatMap_append, Bytes.ofText_ofList, Bytes.ofText_ofList]

/-- What comes of adding a line to a record. -/
theorem run_writeLine {path : Path} (h : path ≠ []) (files : Files) (old : Bytes)
    (line : List Char) (disk : Disk) :
    (writeLine path line disk).run (files.insert path (.file old 0o644)) =
      match disk.filling (files.insert path (.file old 0o644)) path (lineBytes line) with
      | none => (.ok (), files.insert path (.file (old ++ lineBytes line) 0o644))
      | some (taken, fault) =>
        (.error (.files fault),
          files.insert path (.file (old ++ (lineBytes line).take taken) 0o644)) := by
  unfold writeLine
  rw [run_adapt, disk.run_fill h]
  unfold lineBytes
  cases disk.filling (files.insert path (.file old 0o644)) path
    (Bytes.ofText (String.ofList (line ++ ['\n']))) <;> rfl

/-- Both lines of a record are added to an empty file, or only a part of them. -/
theorem writeLines_cases {path : Path} (h : path ≠ []) (files : Files) (c : Cfb8)
    (user password : String) (disk : Disk) :
    (∃ part fault made data taken, part <+: Bytes.ofText (written c user password) ∧
        disk.filling made path data = some (taken, fault) ∧
        (writeLines path user (mask c password) disk).run (files.insert path (.file [] 0o644)) =
          (.error (.files fault), files.insert path (.file part 0o644))) ∨
      (writeLines path user (mask c password) disk).run (files.insert path (.file [] 0o644)) =
        (.ok (), files.insert path
          (.file (Bytes.ofText (written c user password)) 0o644)) := by
  rw [ofText_written]
  unfold writeLines
  have hfirst := run_writeLine h files [] (Record.userLine user) disk
  cases hone : disk.filling (files.insert path (.file [] 0o644)) path
    (lineBytes (Record.userLine user)) with
  | some refused =>
    rw [hone] at hfirst
    refine .inl ⟨_, refused.2, _, _, refused.1, ?_, hone, run_bind_of_error hfirst⟩
    exact (List.take_prefix _ _).trans (List.prefix_append _ _)
  | none =>
    rw [hone] at hfirst
    rw [run_bind_of_ok hfirst, List.nil_append]
    have hsecond := run_writeLine h files (lineBytes (Record.userLine user))
      (Record.passwordLine (mask c password)) disk
    cases htwo : disk.filling
      (files.insert path (.file (lineBytes (Record.userLine user)) 0o644)) path
      (lineBytes (Record.passwordLine (mask c password))) with
    | some refused =>
      rw [htwo] at hsecond
      refine .inl ⟨_, refused.2, _, _, refused.1, ?_, htwo, hsecond⟩
      exact List.prefix_append_right_inj _ |>.mpr (List.take_prefix _ _)
    | none =>
      rw [htwo] at hsecond
      exact .inr hsecond

/-! ### Storing -/

/-- What comes of storing credentials: something is at the path already, or a file is made there and
    given the lines of the record. -/
theorem run_store (vault : Vault) (user password : String) (files : Files) (disk : Disk) :
    (vault.store user password disk).run files =
      match vault.cryptor with
      | .error error => (.error error, files)
      | .ok c =>
        if disk.look files vault.path (files.exists? vault.path) = .ok true then
          (.error (.alreadyExists vault.path), files)
        else
          match (Files.makeFile vault.path disk).run files with
          | (.error fault, left) => (.error (.ofMaking vault.path fault), left)
          | (.ok path, made) => (writeLines path user (mask c password) disk).run made := by
  unfold store
  rw [run_bind, run_liftM_except]
  cases vault.cryptor with
  | error error => rfl
  | ok c =>
    dsimp only
    rw [run_bind_of_ok (run_get files)]
    by_cases hexists : disk.look files vault.path (files.exists? vault.path) = .ok true
    · rw [if_pos hexists, hexists]
      rfl
    · rw [if_neg hexists]
      have hrest := run_bind ((Files.makeFile vault.path disk).adapt (.ofMaking vault.path))
        (fun path => writeLines path user (mask c password) disk) files
      rw [run_adapt] at hrest
      split
      · rename_i hfound
        exact absurd hfound hexists
      · rw [if_neg Bool.false_ne_true]
        refine hrest.trans ?_
        rcases (Files.makeFile vault.path disk).run files with ⟨outcome, made⟩
        cases outcome <;> rfl

/-- What comes of storing credentials on any disk: a failure that touches nothing, a part of a record
    that the disk would not take the rest of, or the record. -/
theorem store_cases (vault : Vault) (user password : String) (files : Files) (disk : Disk) :
    (∃ error, (vault.store user password disk).run files = (.error error, files)) ∨
      (∃ c path part fault made data taken, vault.cryptor = .ok c ∧
        files.find .create vault.path = .ok (.vacant path) ∧
        part <+: Bytes.ofText (written c user password) ∧
        disk.filling made path data = some (taken, fault) ∧
        (vault.store user password disk).run files =
          (.error (.files fault), files.insert path (.file part 0o644))) ∨
      ∃ c path, vault.cryptor = .ok c ∧ files.find .create vault.path = .ok (.vacant path) ∧
        (vault.store user password disk).run files =
          (.ok (), files.insert path (.file (Bytes.ofText (written c user password)) 0o644)) := by
  rw [run_store]
  cases hcryptor : vault.cryptor with
  | error error => exact .inl ⟨error, rfl⟩
  | ok c =>
    dsimp only
    split
    · exact .inl ⟨_, rfl⟩
    · rw [Files.run_makeFile]
      cases hfind : files.find .create vault.path with
      | error fault => exact .inl ⟨_, rfl⟩
      | ok place =>
        cases place with
        | found path entry => exact .inl ⟨_, rfl⟩
        | vacant path =>
          dsimp only
          cases disk.making files path with
          | some fault => exact .inl ⟨_, rfl⟩
          | none =>
            obtain ⟨-, hne, -⟩ := Files.look_of_vacant hfind
            obtain ⟨part, fault, made, data, taken, hpart, hrefused, hrun⟩ | hrun :=
              writeLines_cases hne files c user password disk
            · exact .inr (.inl ⟨c, path, part, fault, made, data, taken, rfl, rfl, hpart, hrefused,
                hrun⟩)
            · exact .inr (.inr ⟨c, path, rfl, rfl, hrun⟩)

/-- What comes of storing credentials if nothing is refused. -/
theorem run_store_sound (vault : Vault) (user password : String) (files : Files) :
    (vault.store user password).run files =
      match vault.cryptor with
      | .error error => (.error error, files)
      | .ok c =>
        if files.exists? vault.path = .ok true then (.error (.alreadyExists vault.path), files)
        else
          match files.create vault.path (Bytes.ofText (written c user password)) with
          | .ok next => (.ok (), next)
          | .error fault => (.error (.ofMaking vault.path fault), files) := by
  rw [run_store]
  cases vault.cryptor with
  | error error => rfl
  | ok c =>
    have hmake : ∀ path, Disk.sound.making files path = none := fun _ => rfl
    dsimp only
    rw [Disk.look_sound, Files.run_makeFile]
    unfold Files.create
    cases hfind : files.find .create vault.path with
    | error fault => rfl
    | ok place =>
      cases place with
      | found path entry => rfl
      | vacant path =>
        obtain ⟨-, hne, -⟩ := Files.look_of_vacant hfind
        obtain ⟨_, _, _, _, _, _, hrefused, _⟩ | hrun :=
          writeLines_cases hne files c user password .sound
        · cases hrefused
        · simp only [hmake, hrun]
          rfl

/-- Storing credentials where nothing is refused, as the files that come of it. -/
theorem obfuscate_eq_run (vault : Vault) (user password : String) (files : Files) :
    vault.obfuscate user password files =
      ((vault.store user password).run files).1.map
        fun _ => ((vault.store user password).run files).2 := rfl

/-- Whether credentials can be stored is said by what is there. -/
theorem obfuscate_eq (vault : Vault) (user password : String) (files : Files) :
    vault.obfuscate user password files =
      match vault.cryptor with
      | .error error => .error error
      | .ok c =>
        if files.exists? vault.path = .ok true then .error (.alreadyExists vault.path)
        else
          (files.create vault.path (Bytes.ofText (written c user password))).mapError
            (.ofMaking vault.path) := by
  rw [obfuscate_eq_run, run_store_sound]
  cases vault.cryptor with
  | error error => rfl
  | ok c =>
    dsimp only
    split
    · rfl
    · cases files.create vault.path (Bytes.ofText (written c user password)) <;> rfl

/-- Where nothing is refused, storing credentials stores them or touches nothing. -/
theorem run_store_eq_obfuscate (vault : Vault) (user password : String) (files : Files) :
    (vault.store user password).run files =
      match vault.obfuscate user password files with
      | .ok next => (.ok (), next)
      | .error error => (.error error, files) := by
  rw [obfuscate_eq_run]
  obtain ⟨error, hrun⟩ | ⟨_, _, _, _, _, _, _, -, -, -, hrefused, -⟩ | ⟨c, path, -, -, hrun⟩ :=
    store_cases vault user password files .sound
  · rw [hrun]
    rfl
  · cases hrefused
  · rw [hrun]
    rfl

end Vault

end Lockbox
