import Lockbox.CommandLine.Client
import Lockbox.Proofs.Agent.Keeping
import Lockbox.Proofs.Credentials.Recovery
import Lockbox.Proofs.Files.Taken
import Lockbox.Proofs.Session.Steps

namespace Lockbox

/-!
# Tasks

What holds of every task, whichever it is.

* `Task.preserves` — what every task keeps.
* `Task.AsksAgent`, `Task.preserves_store` — the tasks that change what an agent keeps, and those
  that do not.
-/

variable {σ : Type}

/-! ### What every task keeps -/

/-- Replacing a file puts one somewhere, or leaves everything as it is. -/
theorem Storage.files_of_replace (path : String) (data : Bytes) (storage : Storage) :
    ((replace path data).run storage).2 = storage ∨
      ∃ files, storage.files.PutsFile files ∧
        ((replace path data).run storage).2 = { storage with files } := by
  rcases replace_cases path data storage with ⟨fault, hreplace⟩ | ⟨slot, htarget, hreplace⟩
  · exact .inl (by rw [hreplace])
  · exact .inr ⟨_, htarget.putsFile data, by rw [hreplace]⟩

section

variable {P : World σ → Prop} {session : Session σ} {location : String}
variable (hconsole : ∀ world console, P world → P { world with console })
variable (houtput : ∀ world output, P world → P { world with output })
variable (hfiles : ∀ world files, P world → world.files.PutsFile files → P { world with files })
variable (hstore : ∀ world store, P world → P { world with store })
variable (hentropy : ∀ world password text d, P world →
  P { world with entropy := ((session.codec.encrypt password text d).run world.entropy).2 })

include hfiles in
/-- What is kept where a file is replaced. -/
theorem Session.keeps_replace (path : String) (data : Bytes) {world : World σ} {storage : Storage}
    (h : P { world with toStorage := storage }) :
    P { world with toStorage := ((Storage.replace path data).run storage).2 } := by
  rcases Storage.files_of_replace path data storage with hsame | ⟨files, hputs, hfile⟩
  · rwa [hsame]
  · rw [hfile]
    exact hfiles { world with toStorage := storage } files h hputs

include hfiles in
theorem Session.preserves_replace (path : String) (data : Bytes) :
    Preserves P (Action.onStorage .storage (Storage.replace path data)) :=
  Action.preserves_onStorage fun _ h => Session.keeps_replace hfiles path data h

include hentropy in
theorem Session.preserves_wrap (password : String) (text : Bytes) (d : Derivation) :
    Preserves P (Action.onStorage .envelope
      (Storage.encrypt session.codec password text d)) :=
  Action.preserves_onStorage fun world h => hentropy world _ _ _ h

include hfiles hentropy in
theorem Session.preserves_save (location password : String) (container : Container) :
    Preserves P (Action.onStorage .storage
      (Storage.save session.codec location password container)) := by
  refine Action.preserves_onStorage fun world h => ?_
  -- Wrapping comes first, and then a file.
  let Q : Storage → Prop := fun storage => P { world with toStorage := storage }
  have hencrypt : Q (((Storage.encrypt session.codec password container.toText
      container.derivation).adapt StorageError.envelope).run world.toStorage).2 :=
    hentropy world _ _ _ h
  refine run_bind_of_preserves hencrypt fun stored storage hstorage => ?_
  exact Session.keeps_replace hfiles location stored hstorage

include hconsole hstore in
theorem Session.preserves_opening (location : String) : Preserves P (session.unlock location) :=
  Session.preserves_unlock location
    (Action.preserves_password _ _ (fun _ world h => hstore world _ h) hconsole)

include hconsole hstore hfiles hentropy in
theorem Session.preserves_modify {α : Type} (location : String)
    (edit : Container → Except ContainerError (α × Container)) :
    Preserves P (session.modify location edit) := by
  refine (Session.preserves_opening hconsole hstore location).bind fun opened => ?_
  refine (Action.preserves_attempt _ _).bind fun changed => ?_
  refine (Action.preserves_within (Session.preserves_save hfiles hentropy _ _ _)).bind fun _ => ?_
  exact Action.preserves_pure _

include hconsole houtput hfiles in
theorem Session.preserves_obfuscate (vault : Vault) (user : String) :
    Preserves P (Session.obfuscate vault user) := by
  refine (Action.preserves_newPassword hconsole).bind fun password => ?_
  refine Preserves.bind ?_ fun _ => Action.preserves_emit _ houtput
  intro world h
  rw [Refusals.disk_nothing, Action.run_storing]
  cases hstored : vault.obfuscate user password world.files with
  | error error => exact h
  | ok changed =>
    obtain ⟨c, -, -, hcreate⟩ := Vault.obfuscate_eq_ok.mp hstored
    exact hfiles world changed h (Files.putsFile_of_create hcreate)

include hconsole houtput hfiles hstore hentropy in
/-- **Every task keeps what wrapping a text keeps**, if nothing else matters to it but that files
    are put somewhere. -/
theorem Task.preserves (vault : Vault) (task : Task) : Preserves P (task.run session vault) := by
  have hemit : ∀ bytes, Preserves P (Action.emit bytes) :=
    fun bytes => Action.preserves_emit bytes houtput
  have hunlock : ∀ location, Preserves P (session.unlock location) :=
    Session.preserves_opening hconsole hstore
  have hmodify : ∀ {α : Type} (location : String)
      (edit : Container → Except ContainerError (α × Container)),
      Preserves P (session.modify location edit) :=
    Session.preserves_modify hconsole hfiles hstore hentropy
  cases task with
  | init location d =>
    refine (Action.preserves_attempt _ _).bind fun _ => Action.preserves_files.bind fun files => ?_
    refine (Action.preserves_attempt _ _).bind fun found => ?_
    cases found with
    | true => exact fun _ h => h
    | false =>
      exact (Action.preserves_newPassword hconsole).bind fun password =>
        Session.preserves_save hfiles hentropy location password (.empty d)
  | list location => exact (hunlock location).bind fun opened => hemit _
  | get location name =>
    exact (hunlock location).bind fun opened => (Action.preserves_attempt _ _).bind fun text =>
      hemit _
  | put location name valueFile =>
    refine Action.preserves_files.bind fun files => ?_
    refine (Action.preserves_within (Action.preserves_attempt _ _)).bind fun text => ?_
    exact (hmodify location _).bind fun replaced => hemit _
  | delete location name => exact hmodify location _
  | rename location name newName => exact hmodify location _
  | encrypt input output d =>
    refine Action.preserves_files.bind fun files => ?_
    refine (Action.preserves_within (Action.preserves_attempt _ _)).bind fun text => ?_
    refine (Action.preserves_newPassword hconsole).bind fun password => ?_
    refine (Action.preserves_within (Session.preserves_wrap hentropy password text d)).bind
      fun stored => ?_
    cases output with
    | some path => exact Session.preserves_replace hfiles path stored
    | none => exact hemit _
  | decrypt input output =>
    refine Action.preserves_files.bind fun files => ?_
    refine (Action.preserves_within (Action.preserves_attempt _ _)).bind fun stored => ?_
    refine (Action.preserves_password _ _ (fun _ world h => hstore world _ h) hconsole).bind
      fun password => ?_
    refine (Action.preserves_within (Action.preserves_attempt _ _)).bind fun text => ?_
    cases output with
    | some path => exact Session.preserves_replace hfiles path _
    | none => exact hemit _
  | remember location =>
    refine (Action.preserves_attempt _ _).bind fun _ => ?_
    refine (Action.preserves_ask _ hconsole).bind fun password => ?_
    refine (Preserves.bind (Action.preserves_files.bind fun files =>
      Action.preserves_within (Action.preserves_attempt _ _)) fun _ => ?_)
    refine Action.preserves_files.bind fun files => ?_
    refine (Action.preserves_attempt _ _).bind fun name => Action.preserves_within ?_
    exact (Action.preserves_askAgent fun world h => hstore world _ h).bind fun outcome =>
      Action.preserves_attempt _ _
  | forget location =>
    refine Action.preserves_files.bind fun files => ?_
    refine (Action.preserves_attempt _ _).bind fun name => Action.preserves_within ?_
    exact (Action.preserves_askAgent fun world h => hstore world _ h).bind fun outcome =>
      Action.preserves_attempt _ _
  | obfuscate user => exact Session.preserves_obfuscate hconsole houtput hfiles vault user
  | variableNames => exact (hemit _).bind fun _ => (hemit _).bind fun _ => hemit _

end

/-! ### What an agent keeps -/

/-- The tasks that change what an agent keeps. -/
def Task.AsksAgent : Task → Prop
  | remember _ | forget _ => True
  | _ => False

section

variable {session : Session Cache} {cache : Cache}

theorem preserves_store_onStorage {ε α : Type} {cause : ε → Cause}
    {step : ExceptT ε (StateM Storage) α} :
    Preserves (fun world : World Cache => world.store = cache) (Action.onStorage cause step) :=
  Action.preserves_onStorage fun _ h => h

theorem preserves_store_newPassword :
    Preserves (fun world : World Cache => world.store = cache) Action.newPassword :=
  Action.preserves_newPassword fun _ _ h => h

theorem preserves_store_emit (bytes : Bytes) :
    Preserves (fun world : World Cache => world.store = cache) (Action.emit bytes) :=
  Action.preserves_emit bytes fun _ _ h => h

variable (hagent : session.agent.Atomic)
include hagent

/-- Getting a password keeps what does not depend on the terminal, for it does not put the password
    into the cache. -/
theorem preserves_password_of_atomic {P : World Cache → Prop}
    (hask : ∀ world console, P world → P { world with console }) (location : String) :
    Preserves P (Action.password session.agent location) := by
  apply Action.preserves_password
  · intro name world h
    rw [hagent.get name world.store]
    exact h
  · exact hask

theorem preserves_store_unlock (location : String) :
    Preserves (fun world => world.store = cache) (session.unlock location) :=
  Session.preserves_unlock location (preserves_password_of_atomic hagent (fun _ _ h => h) location)

theorem preserves_store_modify {α : Type} (location : String)
    (edit : Container → Except ContainerError (α × Container)) :
    Preserves (fun world => world.store = cache) (session.modify location edit) := by
  refine (preserves_store_unlock hagent location).bind fun opened => ?_
  refine (Action.preserves_attempt _ _).bind fun changed => ?_
  refine (Action.preserves_within preserves_store_onStorage).bind fun _ => ?_
  exact Action.preserves_pure _

/-- **No other task changes what an agent keeps**, whether or not it fails. -/
theorem Task.preserves_store (vault : Vault) {task : Task} (htask : ¬ task.AsksAgent) :
    Preserves (fun world => world.store = cache) (task.run session vault) := by
  cases task with
  | init location d =>
    refine (Action.preserves_attempt _ _).bind fun _ => Action.preserves_files.bind fun files => ?_
    refine (Action.preserves_attempt _ _).bind fun found => ?_
    have hmake : Preserves (fun world : World Cache => world.store = cache) (do
        let password ← Action.newPassword
        Action.onStorage .storage (Storage.save session.codec location password (.empty d))) :=
      preserves_store_newPassword.bind fun password => preserves_store_onStorage
    dsimp only
    split
    · exact fun _ h => h
    · exact hmake
  | list location =>
    exact (preserves_store_unlock hagent location).bind fun opened => preserves_store_emit _
  | get location name =>
    refine (preserves_store_unlock hagent location).bind fun opened => ?_
    exact (Action.preserves_attempt _ _).bind fun text => preserves_store_emit _
  | put location name valueFile =>
    refine Action.preserves_files.bind fun files => ?_
    refine (Action.preserves_within (Action.preserves_attempt _ _)).bind fun text => ?_
    exact (preserves_store_modify hagent location _).bind fun replaced => preserves_store_emit _
  | delete location name => exact preserves_store_modify hagent location _
  | rename location name newName => exact preserves_store_modify hagent location _
  | encrypt input output d =>
    refine Action.preserves_files.bind fun files => ?_
    refine (Action.preserves_within (Action.preserves_attempt _ _)).bind fun text => ?_
    refine preserves_store_newPassword.bind fun password => ?_
    refine (Action.preserves_within preserves_store_onStorage).bind fun stored => ?_
    cases output with
    | some path => exact preserves_store_onStorage
    | none => exact preserves_store_emit _
  | decrypt input output =>
    refine Action.preserves_files.bind fun files => ?_
    refine (Action.preserves_within (Action.preserves_attempt _ _)).bind fun stored => ?_
    refine (preserves_password_of_atomic hagent (fun _ _ h => h) input).bind fun password => ?_
    refine (Action.preserves_within (Action.preserves_attempt _ _)).bind fun text => ?_
    cases output with
    | some path => exact preserves_store_onStorage
    | none => exact preserves_store_emit _
  | remember location => exact absurd trivial htask
  | forget location => exact absurd trivial htask
  | obfuscate user =>
    refine preserves_store_newPassword.bind fun password => ?_
    exact (Action.preserves_onFiles fun _ h => h).bind fun _ => preserves_store_emit _
  | variableNames =>
    exact (preserves_store_emit _).bind fun _ =>
      (preserves_store_emit _).bind fun _ => preserves_store_emit _

end

end Lockbox
