import Lockbox.Proofs.Credentials.Recovery
import Lockbox.Proofs.Files.Twins
import Lockbox.Proofs.Session.Agreement

namespace Lockbox

/-!
# Files that decrypt alike

Two worlds that differ in the contents of one file are not told apart by any task, if what is in the
file decrypts alike in both: whatever the file is asked for, the task ends and prints the same, and
the worlds after it differ in no more than before.  Only a task that takes the bytes of the file as
they are would notice.

* `World.Twins` — worlds that differ in the contents of one file.
* `Action.Blind` — steps that do not notice the difference.
* `Codec.Alike` — contents that decrypt alike.
* `Task.takes?` — the file whose bytes a task takes as they are.
* `Task.agree_twins` — what holds of every task.
-/

variable {σ α β ε : Type}

/-- Two worlds that differ in the contents of the file at a path, if at all. -/
structure World.Twins (path : Path) (old new : Bytes) (world other : World σ) : Prop where
  files : Files.Twins path old new world.files other.files
  entropy : other.entropy = world.entropy
  store : other.store = world.store
  console : other.console = world.console
  output : other.output = world.output

/-- Worlds with the same files are the same if they differ in nothing else. -/
theorem World.Twins.eq_of_files {path : Path} {old new : Bytes} {world other : World σ}
    (h : World.Twins path old new world other) (hfiles : other.files = world.files) :
    other = world := by
  obtain ⟨⟨files, entropy⟩, store, console, output⟩ := world
  obtain ⟨⟨files', entropy'⟩, store', console', output'⟩ := other
  obtain rfl : files' = files := hfiles
  obtain rfl : entropy' = entropy := h.entropy
  obtain rfl : store' = store := h.store
  obtain rfl : console' = console := h.console
  obtain rfl : output' = output := h.output
  rfl

/-- Contents that a codec decrypts alike, whatever the password is. -/
def Codec.Alike (codec : Codec) (old new : Bytes) : Prop :=
  ∀ password, codec.decrypt password new = codec.decrypt password old

/-! ### Steps that do not notice -/

section

variable {path : Path} {old new : Bytes}

namespace Action

/-- Does a step come to the same in two worlds that differ in the contents of one file, and leave no
    other difference? -/
def Blind (path : Path) (old new : Bytes) (action : Action σ α) : Prop :=
  Agree (World.Twins path old new) action action (World.Twins path old new)

theorem Blind.bind {action : Action σ α} {rest : α → Action σ β} (h : Blind path old new action)
    (hrest : ∀ result, Blind path old new (rest result)) : Blind path old new (action >>= rest) :=
  Agree.bind h (fun _ _ h => h) hrest

theorem blind_pure (result : α) : Blind path old new (pure result : Action σ α) :=
  agree_pure result

theorem blind_attempt (cause : ε → Cause) (outcome : Except ε α) :
    Blind path old new (attempt cause outcome : Action σ α) :=
  agree_attempt cause outcome

theorem blind_emit (bytes : Bytes) : Blind path old new (emit bytes : Action σ Unit) := by
  intro world other h
  refine ⟨rfl, h.files, h.entropy, h.store, h.console, ?_⟩
  show other.output ++ bytes = world.output ++ bytes
  rw [h.output]

theorem blind_ask (question : String) : Blind path old new (ask question : Action σ String) := by
  intro world other h
  rw [run_ask, run_ask, h.console]
  exact ⟨rfl, h.files, h.entropy, h.store, rfl, h.output⟩

theorem blind_askAgent (step : ExceptT AgentError (StateM σ) α) :
    Blind path old new (askAgent step : Action σ _) := by
  intro world other h
  rw [run_askAgent, run_askAgent, h.store]
  exact ⟨rfl, h.files, h.entropy, rfl, h.console, h.output⟩

/-- What is done with the files that are seen. -/
theorem blind_files {rest : Files → Action σ α} (h : ∀ seen saw, Files.Twins path old new seen saw →
      Agree (World.Twins path old new) (rest seen) (rest saw) (World.Twins path old new)) :
    Blind path old new (files >>= rest) := by
  intro world other hworld
  rw [run_bind_of_ok (run_files world), run_bind_of_ok (run_files other)]
  exact h _ _ hworld.files _ _ hworld

/-! ### Passwords -/

theorem blind_remembered (agent : PasswordStore σ) (location : String) :
    Blind path old new (remembered agent location) := by
  refine blind_files fun seen saw hseen => ?_
  rw [hseen.workingDirectory]
  cases Location.fingerprint seen.workingDirectory location with
  | error fault => exact blind_pure none
  | ok name =>
    refine Agree.bind (blind_askAgent (agent.get name)) (fun _ _ h => h) fun outcome => ?_
    cases outcome <;> exact blind_pure _

/-- Where a password comes from is the same. -/
theorem blind_password (agent : PasswordStore σ) (location : String) :
    Blind path old new (password agent location) := by
  refine (blind_remembered agent location).bind fun found => ?_
  cases found with
  | some password => exact blind_pure password
  | none => exact blind_ask Question.password

theorem blind_newPassword : Blind path old new (newPassword : Action σ String) := by
  refine (blind_ask _).bind fun first => (blind_ask _).bind fun second => ?_
  split
  · exact blind_pure first
  · exact fun _ _ h => ⟨rfl, h⟩

end Action

/-! ### Storing -/

namespace Storage

/-- Does a step on the storage come to the same if the contents of one file differ, and leave no
    other difference? -/
def Blind (path : Path) (old new : Bytes) (step : ExceptT ε (StateM Storage) α) : Prop :=
  ∀ (storage : Storage) (other : Files), Files.Twins path old new storage.files other →
    (step.run { storage with files := other }).1 = (step.run storage).1 ∧
      Files.Twins path old new (step.run storage).2.files
        (step.run { storage with files := other }).2.files ∧
      (step.run { storage with files := other }).2.entropy = (step.run storage).2.entropy

theorem blind_encrypt (codec : Codec) (password : String) (text : Bytes) (d : Derivation) :
    Blind path old new (encrypt codec password text d) :=
  fun _ _ h => ⟨rfl, h, rfl⟩

theorem blind_replace (written : String) (data : Bytes) :
    Blind path old new (replace written data) := by
  intro storage other h
  obtain ⟨houtcome, hfiles⟩ := h.writePrivate written data
  rw [run_replace, run_replace]
  dsimp only
  rw [houtcome]
  exact ⟨rfl, hfiles, rfl⟩

theorem blind_save (codec : Codec) (location password : String) (container : Container) :
    Blind path old new (save codec location password container) := by
  intro storage other h
  -- Wrapping comes to the same, for it does not look at the files.
  rcases hencrypt : ((codec.encrypt (Bytes.ofText password) container.toText
    container.derivation).run storage.entropy) with ⟨outcome, entropy⟩
  have hwrap : ∀ files, ((encrypt codec password container.toText container.derivation).adapt
      StorageError.envelope).run { storage with files } =
        (outcome.mapError StorageError.envelope, { files, entropy }) := by
    intro files
    show ((encrypt codec password container.toText container.derivation).run
      { storage with files }).map (Except.mapError StorageError.envelope) id = _
    rw [run_encrypt]
    dsimp only
    rw [hencrypt]
    rfl
  unfold save
  have hthis := hwrap storage.files
  have hthat := hwrap other
  cases outcome with
  | error error =>
    rw [run_bind_of_error hthat, run_bind_of_error hthis]
    exact ⟨rfl, h, rfl⟩
  | ok stored =>
    rw [run_bind_of_ok hthat, run_bind_of_ok hthis]
    exact blind_replace location stored { files := storage.files, entropy } other h

end Storage

theorem Action.blind_onStorage {step : ExceptT ε (StateM Storage) α}
    (h : Storage.Blind path old new step) (cause : ε → Cause) :
    Blind path old new (onStorage cause step : Action σ α) := by
  intro world other hworld
  have hstorage : other.toStorage = { world.toStorage with files := other.files } :=
    congrArg (Storage.mk other.files) hworld.entropy
  obtain ⟨houtcome, hfiles, hentropy⟩ := h world.toStorage other.files hworld.files
  rw [run_onStorage, run_onStorage, hstorage, houtcome]
  exact ⟨rfl, hfiles, hentropy, hworld.store, hworld.console, hworld.output⟩

/-! ### Containers -/

section

variable {session : Session σ} (halike : session.codec.Alike old new)
include halike

open Lockbox.Action

/-- What opens is the same. -/
theorem Storage.load_of_twins {files other : Files} (h : Files.Twins path old new files other)
    (location password : String) :
    Storage.load session.codec other location password =
      Storage.load session.codec files location password := by
  rcases h.read location with hread | ⟨-, hfiles, hother⟩
  · exact Storage.load_congr hread session.codec password
  · unfold Storage.load Storage.raw
    rw [Disk.look_sound, Disk.look_sound, hfiles, hother, mapError_ok, mapError_ok, ok_bind,
      ok_bind, halike]

theorem Session.blind_openWith (location password : String) :
    Blind path old new (session.openWith location password) := by
  refine blind_files fun seen saw hseen => ?_
  rw [Refusals.disk_nothing, Storage.load_of_twins halike hseen]
  exact (blind_attempt _ _).within

theorem Session.blind_unlock (location : String) :
    Blind path old new (session.unlock location) := by
  refine (blind_attempt _ _).bind fun _ => ?_
  refine Blind.bind (blind_password _ _).within fun password => ?_
  exact (Session.blind_openWith halike location password).bind fun container =>
    blind_pure (container, password)

theorem Session.blind_modify (location : String)
    (edit : Container → Except ContainerError (α × Container)) :
    Blind path old new (session.modify location edit) := by
  refine (Session.blind_unlock halike location).bind fun opened => ?_
  refine (blind_attempt _ _).bind fun changed => ?_
  refine Blind.bind (blind_onStorage (Storage.blind_save _ _ _ _) _).within fun _ => ?_
  exact blind_pure _

end

/-! ### Tasks -/

/-- The file whose bytes a task takes as they are: the text that is put, or what is encrypted. -/
def Task.takes? : Task → Option String
  | put _ _ valueFile => some valueFile
  | encrypt input _ _ => some input
  | init _ _ | list _ | get _ _ | delete _ _ | rename _ _ _ | decrypt _ _ | remember _ | forget _
  | obfuscate _ | variableNames => none

/-- Credentials are stored in both trees or in none. -/
theorem Vault.obfuscate_twins (vault : Vault) (user password : String) {files other : Files}
    (h : Files.Twins path old new files other) :
    (∃ error, vault.obfuscate user password files = .error error ∧
        vault.obfuscate user password other = .error error) ∨
      ∃ next after, vault.obfuscate user password files = .ok next ∧
        vault.obfuscate user password other = .ok after ∧ Files.Twins path old new next after := by
  rw [obfuscate_eq, obfuscate_eq, h.exists?]
  cases vault.cryptor with
  | error error => exact .inl ⟨error, rfl, rfl⟩
  | ok c =>
    dsimp only
    split
    · exact .inl ⟨_, rfl, rfl⟩
    · rcases h.create vault.path (Bytes.ofText (written c user password)) with
        ⟨reason, hfiles, hother⟩ | ⟨next, after, hfiles, hother, htwins⟩
      · rw [hfiles, hother]
        exact .inl ⟨_, rfl, rfl⟩
      · rw [hfiles, hother]
        exact .inr ⟨next, after, rfl, rfl, htwins⟩

theorem Action.blind_storing (vault : Vault) (user password : String) :
    Blind path old new
      (onFiles .vault (vault.store user password) : Action σ Unit) := by
  intro world other hworld
  rw [run_storing, run_storing]
  rcases vault.obfuscate_twins user password hworld.files with
    ⟨error, hthis, hthat⟩ | ⟨next, after, hthis, hthat, htwins⟩
  · rw [hthis, hthat]
    exact ⟨rfl, hworld⟩
  -- The files that are put in place are alike again.
  · rw [hthis, hthat]
    exact ⟨rfl, htwins, hworld.entropy, hworld.store, hworld.console, hworld.output⟩

open Lockbox.Action in
/-- What decrypting does once it has read a file. -/
def Session.continueDecrypt (session : Session σ) (input : String) (output : Option String)
    (stored : Bytes) : Action σ Unit := do
  let password ← password session.agent input
  let (text, _) ← within s!"Unable to decrypt '{input}'" <|
    attempt .envelope (session.codec.decrypt (Bytes.ofText password) stored)
  match output with
  | some path => onStorage .storage (Storage.replace path text)
  | none => emit text

section

variable {session : Session σ} (halike : session.codec.Alike old new)
include halike

open Lockbox.Action

/-- What decrypting does once a file has been read comes to the same for contents that decrypt
    alike. -/
theorem Session.continueDecrypt_eq (input : String) (output : Option String) :
    session.continueDecrypt input output new = session.continueDecrypt input output old := by
  unfold continueDecrypt
  refine bind_congr fun password => ?_
  rw [halike]

theorem Session.blind_decrypt (input : String) (output : Option String) :
    Blind path old new (session.decrypt input output) := by
  have hrest : ∀ stored, Blind path old new (session.continueDecrypt input output stored) := by
    intro stored
    refine (blind_password _ _).bind fun password => ?_
    refine Blind.bind (blind_attempt _ _).within fun result => ?_
    cases output with
    | some path => exact blind_onStorage (Storage.blind_replace _ _) _
    | none => exact blind_emit _
  refine blind_files fun seen saw hseen => ?_
  rcases hseen.read input with hread | ⟨-, hold, hnew⟩
  · rw [Refusals.disk_nothing, Disk.look_sound, Disk.look_sound, hread]
    exact Blind.bind (blind_attempt _ _).within hrest
  · intro world other hworld
    rw [Refusals.disk_nothing, Disk.look_sound, Disk.look_sound,
      run_bind_of_ok (run_within_attempt_of_ok hold _ world),
      run_bind_of_ok (run_within_attempt_of_ok hnew _ other)]
    have hsame : (session.continueDecrypt input output new).run other =
        (session.continueDecrypt input output old).run other := by
      rw [Session.continueDecrypt_eq halike]
    show ((session.continueDecrypt input output new).run other).1 = _ ∧
      World.Twins path old new _ ((session.continueDecrypt input output new).run other).2
    rw [hsame]
    exact hrest old world other hworld

/-- **No task tells two worlds apart** that differ in the contents of one file, if these decrypt
    alike and the task does not take them as they are. -/
theorem Task.agree_twins (vault : Vault) (task : Task) :
    Agree (fun world other => World.Twins path old new world other ∧
        ∀ taken ∈ task.takes?, other.files.read taken = world.files.read taken)
      (task.run session vault) (task.run session vault) (World.Twins path old new) := by
  -- Two tasks take the bytes of a file, and these have to be the same.
  have hreads : ∀ {input text : String} {cause : Fault → Cause} {α : Type}
      {f : Except Fault Bytes → Except Fault α} {rest : α → Action σ Unit},
      (∀ result, Blind path old new (rest result)) →
      Agree (fun world other => World.Twins path old new world other ∧
          other.files.read input = world.files.read input)
        (files >>= fun seen => within text (attempt cause (f (seen.read input))) >>= rest)
        (files >>= fun seen => within text (attempt cause (f (seen.read input))) >>= rest)
        (World.Twins path old new) := by
    rintro input text cause α f rest hrest world other ⟨htwins, hread⟩
    rw [run_bind_of_ok (run_files world), run_bind_of_ok (run_files other), hread]
    exact Blind.bind (blind_attempt _ _).within hrest world other htwins
  cases task with
  | init location d =>
    rintro world other ⟨h, -⟩
    refine Blind.bind (blind_attempt _ _) (fun _ => blind_files fun seen saw hseen => ?_) world
      other h
    have hexists : Storage.exists? saw location = Storage.exists? seen location := by
      unfold Storage.exists?
      rw [Disk.look_sound, Disk.look_sound, hseen.exists?]
    rw [Refusals.disk_nothing, hexists]
    refine Blind.bind (blind_attempt _ _) fun found => ?_
    cases found with
    | true => exact fun _ _ h => ⟨rfl, h⟩
    | false =>
      exact blind_newPassword.bind fun password => blind_onStorage (Storage.blind_save _ _ _ _) _
  | list location =>
    rintro world other ⟨h, -⟩
    exact (Session.blind_unlock halike location).bind (fun opened => blind_emit _) world other h
  | get location name =>
    rintro world other ⟨h, -⟩
    exact (Session.blind_unlock halike location).bind (fun opened =>
      (blind_attempt _ _).bind fun text => blind_emit _) world other h
  | put location name valueFile =>
    rintro world other ⟨h, hread⟩
    refine hreads (f := fun outcome => outcome >>= fun data => match data.toText? with
      | some text => pure text | none => throw .invalidData) (fun text => ?_) world other
      ⟨h, hread valueFile rfl⟩
    exact (Session.blind_modify halike location _).bind fun replaced => blind_emit _
  | delete location name =>
    rintro world other ⟨h, -⟩
    exact Session.blind_modify halike location _ world other h
  | rename location name newName =>
    rintro world other ⟨h, -⟩
    exact Session.blind_modify halike location _ world other h
  | encrypt input output d =>
    rintro world other ⟨h, hread⟩
    refine hreads (f := id) (fun text => ?_) world other ⟨h, hread input rfl⟩
    refine blind_newPassword.bind fun password => ?_
    refine Blind.bind (blind_onStorage (Storage.blind_encrypt _ _ _ _) _).within fun stored => ?_
    cases output with
    | some path => exact blind_onStorage (Storage.blind_replace _ _) _
    | none => exact blind_emit _
  | decrypt input output =>
    rintro world other ⟨h, -⟩
    exact Session.blind_decrypt halike input output world other h
  | remember location =>
    rintro world other ⟨h, -⟩
    refine Blind.bind (blind_attempt _ _) (fun _ => (blind_ask _).bind fun password => ?_) world
      other h
    refine (Session.blind_openWith halike location password).bind fun container => ?_
    refine blind_files fun seen saw hseen => ?_
    rw [hseen.workingDirectory]
    refine Blind.bind (blind_attempt _ _) fun name => ?_
    exact Agree.within ((blind_askAgent _).bind fun outcome => blind_attempt _ _)
  | forget location =>
    rintro world other ⟨h, -⟩
    refine blind_files (fun seen saw hseen => ?_) world other h
    rw [hseen.workingDirectory]
    refine Blind.bind (blind_attempt _ _) fun name => ?_
    exact Agree.within ((blind_askAgent _).bind fun outcome => blind_attempt _ _)
  | obfuscate user =>
    rintro world other ⟨h, -⟩
    exact blind_newPassword.bind (fun password =>
      (blind_storing vault user password).bind fun _ => blind_emit _) world other h
  | variableNames =>
    rintro world other ⟨h, -⟩
    exact (blind_emit _).bind (fun _ => (blind_emit _).bind fun _ => blind_emit _) world other h

end

end

end Lockbox
