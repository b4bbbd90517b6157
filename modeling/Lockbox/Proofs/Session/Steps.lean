import Lockbox.Proofs.Credentials.Storing
import Lockbox.Proofs.Storage
import Lockbox.Session.Commands

namespace Lockbox

/-!
# The steps of commands

What each step of a command comes to.  A container that has been opened is stored again under the
password that opened it, and a container is made only where nothing is to be seen.

* `Action.run_attempt`, `run_within`, `run_onStorage`, `run_askAgent`, `run_ask` — single steps.
* `Action.preserves_attempt` and its like — what single steps keep.
* `Action.preserves_password`, `newPassword_frame` — where passwords come from.
* `Session.unlock_eq_ok` — what it takes to open a container.
* `Session.init_cases`, `modify_cases` — making and changing a container.
* `Session.run_give`, `remember_cases`, `run_forget` — what is asked of the agent.
-/

variable {σ α ε : Type}

/-- Where nothing is refused, the disk is sound. -/
@[simp] theorem Refusals.disk_nothing : nothing.disk = .sound := rfl

namespace Action

/-! ### Single steps -/

/-- What comes of a step whose outcome is known. -/
@[simp] theorem run_attempt (cause : ε → Cause) (outcome : Except ε α) (world : World σ) :
    (attempt cause outcome : Action σ α).run world =
      (outcome.mapError fun error => { cause := cause error }, world) := by
  cases outcome <;> rfl

/-- What comes of a step that says what it is about. -/
@[simp] theorem run_within (text : String) (action : Action σ α) (world : World σ) :
    (within text action).run world =
      ((action.run world).1.mapError fun failure =>
        { failure with context := text :: failure.context }, (action.run world).2) := rfl

/-- What comes of a step whose outcome is known, with what it is about. -/
theorem run_within_attempt (text : String) (cause : ε → Cause) (outcome : Except ε α)
    (world : World σ) : (within text (attempt cause outcome) : Action σ α).run world =
      (outcome.mapError fun error => { cause := cause error, context := [text] }, world) := by
  cases outcome <;> rfl

/-- A step whose outcome is a success does nothing, whatever it is about. -/
theorem run_within_attempt_of_ok {cause : ε → Cause} {outcome : Except ε α} {result : α}
    (h : outcome = .ok result) (text : String) (world : World σ) :
    (within text (attempt cause outcome) : Action σ α).run world = (.ok result, world) := by
  rw [run_within_attempt, h, mapError_ok]

/-- What comes of a step on the stored files. -/
@[simp] theorem run_onStorage (cause : ε → Cause) (step : ExceptT ε (StateM Storage) α)
    (world : World σ) :
    (onStorage cause step : Action σ α).run world =
      ((step.run world.toStorage).1.mapError fun error => { cause := cause error },
        { world with toStorage := (step.run world.toStorage).2 }) := by
  show (attempt cause (step.run world.toStorage).1 : Action σ α).run
    { world with toStorage := (step.run world.toStorage).2 } = _
  rw [run_attempt]

/-- What comes of a step on the files alone. -/
@[simp] theorem run_onFiles (cause : ε → Cause) (step : ExceptT ε (StateM Files) α)
    (world : World σ) :
    (onFiles cause step : Action σ α).run world =
      ((step.run world.files).1.mapError fun error => { cause := cause error },
        { world with files := (step.run world.files).2 }) := by
  show (attempt cause (step.run world.files).1 : Action σ α).run
    { world with files := (step.run world.files).2 } = _
  rw [run_attempt]

/-- What comes of storing credentials. -/
theorem run_storing (vault : Vault) (user password : String) (world : World σ) :
    (onFiles .vault (vault.store user password) : Action σ Unit).run world =
      match vault.obfuscate user password world.files with
      | .ok next => (.ok (), { world with files := next })
      | .error error => (.error { cause := .vault error }, world) := by
  rw [run_onFiles, vault.run_store_eq_obfuscate]
  cases vault.obfuscate user password world.files <;> rfl

/-- What comes of a step on the agent. -/
@[simp] theorem run_askAgent (step : ExceptT AgentError (StateM σ) α) (world : World σ) :
    (askAgent step : Action σ _).run world =
      (.ok (step.run world.store).1, { world with store := (step.run world.store).2 }) := rfl

/-- What comes of a question. -/
@[simp] theorem run_ask (question : String) (world : World σ) :
    (ask question : Action σ String).run world =
      ((world.console.ask question).1.mapError fun fault => { cause := .fault fault },
        { world with console := (world.console.ask question).2 }) := by
  show (attempt .fault (world.console.ask question).1 : Action σ String).run
    { world with console := (world.console.ask question).2 } = _
  rw [run_attempt]

@[simp] theorem run_emit (bytes : Bytes) (world : World σ) :
    (emit bytes : Action σ Unit).run world =
      (.ok (), { world with output := world.output ++ bytes }) := rfl

/-- What comes of writing to an output that may refuse. -/
theorem run_emit_on (refusals : Refusals) (bytes : Bytes) (world : World σ) :
    (emit bytes refusals : Action σ Unit).run world =
      match refusals.output world.output bytes with
      | none => (.ok (), { world with output := world.output ++ bytes })
      | some (taken, fault) =>
        (.error { cause := .fault fault }, { world with output := world.output ++ bytes.take taken })
        := by
  unfold emit
  rw [run_bind_of_ok (run_get world)]
  cases refusals.output world.output bytes <;> rfl

@[simp] theorem run_files (world : World σ) :
    (files : Action σ Files).run world = (.ok world.files, world) := rfl

/-- A step that only has an outcome succeeds if the outcome is a success. -/
theorem run_attempt_eq_ok {cause : ε → Cause} {outcome : Except ε α} {result : α}
    {world next : World σ} : (attempt cause outcome : Action σ α).run world = (.ok result, next) ↔
      outcome = .ok result ∧ next = world := by
  rw [run_attempt, Prod.mk.injEq, mapError_eq_ok, eq_comm (a := world)]

/-- What a step is about does not matter if it succeeds. -/
theorem run_within_eq_ok {text : String} {action : Action σ α} {result : α}
    {world next : World σ} : (within text action).run world = (.ok result, next) ↔
      action.run world = (.ok result, next) := by
  rw [run_within, Prod.mk.injEq, mapError_eq_ok, Prod.ext_iff]

/-! ### Properties that steps keep -/

section

variable {P : World σ → Prop}

theorem preserves_pure (result : α) : Preserves P (pure result : Action σ α) := fun _ h => h

theorem preserves_files : Preserves P (files : Action σ Files) := fun _ h => h

theorem preserves_attempt (cause : ε → Cause) (outcome : Except ε α) :
    Preserves P (attempt cause outcome : Action σ α) := by
  apply preserves_of_unchanged
  intro world
  rw [run_attempt]

theorem preserves_within {text : String} {action : Action σ α} (h : Preserves P action) :
    Preserves P (within text action) := h

theorem preserves_ask (question : String)
    (h : ∀ world console, P world → P { world with console }) :
    Preserves P (ask question : Action σ String) := by
  intro world hworld
  rw [run_ask]
  exact h world _ hworld

theorem preserves_emit (bytes : Bytes) (h : ∀ world output, P world → P { world with output }) :
    Preserves P (emit bytes : Action σ Unit) := fun world => h world _

theorem preserves_onStorage {cause : ε → Cause} {step : ExceptT ε (StateM Storage) α}
    (h : ∀ world, P world → P { world with toStorage := (step.run world.toStorage).2 }) :
    Preserves P (onStorage cause step : Action σ α) := by
  intro world hworld
  rw [run_onStorage]
  exact h world hworld

theorem preserves_onFiles {cause : ε → Cause} {step : ExceptT ε (StateM Files) α}
    (h : ∀ world, P world → P { world with files := (step.run world.files).2 }) :
    Preserves P (onFiles cause step : Action σ α) := by
  intro world hworld
  rw [run_onFiles]
  exact h world hworld

theorem preserves_askAgent {step : ExceptT AgentError (StateM σ) α}
    (h : ∀ world, P world → P { world with store := (step.run world.store).2 }) :
    Preserves P (askAgent step : Action σ _) := fun world => h world

end

/-! ### Passwords -/

section

variable {P : World σ → Prop}

/-- Asking the agent for a password keeps what does not depend on the agent. -/
theorem preserves_remembered (agent : PasswordStore σ) (location : String)
    (hget : ∀ name world, P world →
      P { world with store := ((agent.get name).run world.store).2 }) :
    Preserves P (remembered agent location) := by
  refine preserves_files.bind fun files => ?_
  split
  · exact preserves_pure none
  · rename_i name _
    refine (preserves_askAgent (hget name)).bind fun outcome => ?_
    cases outcome <;> exact preserves_pure _

/-- Getting a password keeps what depends neither on the agent nor on the terminal. -/
theorem preserves_password (agent : PasswordStore σ) (location : String)
    (hget : ∀ name world, P world → P { world with store := ((agent.get name).run world.store).2 })
    (hask : ∀ world console, P world → P { world with console }) :
    Preserves P (password agent location) := by
  refine (preserves_remembered agent location hget).bind fun found => ?_
  cases found with
  | some password => exact preserves_pure password
  | none => exact preserves_ask Question.password hask

/-- A password that the agent gives is the one that is got, and nobody is asked. -/
theorem run_password_of_get {agent : PasswordStore σ} {location name given : String}
    {world : World σ} {store : σ}
    (hname : Location.fingerprint world.files.workingDirectory location = .ok name)
    (hget : (agent.get name).run world.store = (.ok given, store)) (hgiven : given ≠ "") :
    (password agent location).run world = (.ok given, { world with store }) := by
  have hanswer := run_askAgent (agent.get name) world
  rw [hget] at hanswer
  have hremembered : (remembered agent location).run world =
      (.ok (some given), { world with store }) := by
    unfold remembered
    rw [run_bind_of_ok (run_files world), hname]
    dsimp only
    rw [run_bind_of_ok hanswer]
    dsimp only
    rw [if_neg hgiven]
    rfl
  unfold password
  rw [run_bind_of_ok hremembered]
  rfl

/-- What the agent says is not a password, or an empty one: the password is typed. -/
theorem run_password_of_no_get {agent : PasswordStore σ} {location name : String}
    {outcome : Except AgentError String} {world : World σ} {store : σ}
    (hname : Location.fingerprint world.files.workingDirectory location = .ok name)
    (hget : (agent.get name).run world.store = (outcome, store))
    (hnone : ∀ given, outcome = .ok given → given = "") :
    (password agent location).run world = (ask Question.password).run { world with store } := by
  have hanswer := run_askAgent (agent.get name) world
  rw [hget] at hanswer
  have hremembered : (remembered agent location).run world = (.ok none, { world with store }) := by
    unfold remembered
    rw [run_bind_of_ok (run_files world), hname]
    dsimp only
    rw [run_bind_of_ok hanswer]
    cases outcome with
    | error error => rfl
    | ok given =>
      dsimp only
      rw [if_pos (hnone given rfl)]
      rfl
  unfold password
  rw [run_bind_of_ok hremembered]

/-- Where the location has no name the agent is not asked, and the password is typed. -/
theorem run_password_of_unlocatable (agent : PasswordStore σ) {location : String} {fault : Fault}
    {world : World σ}
    (hname : Location.fingerprint world.files.workingDirectory location = .error fault) :
    (password agent location).run world = (ask Question.password).run world := by
  have hremembered : (remembered agent location).run world = (.ok none, world) := by
    unfold remembered
    rw [run_bind_of_ok (run_files world), hname]
    rfl
  unfold password
  rw [run_bind_of_ok hremembered]

/-- Where nobody answers for the agent, the password is typed. -/
theorem run_password_dead (location : String) (world : World σ) :
    (password (.dead σ) location).run world = (ask Question.password).run world := by
  cases hname : Location.fingerprint world.files.workingDirectory location with
  | error fault => exact run_password_of_unlocatable _ hname
  | ok name => exact run_password_of_no_get hname rfl fun _ h => nomatch h

/-- Getting a new password changes nothing but the terminal. -/
theorem newPassword_frame (world : World σ) :
    ∃ outcome console, newPassword.run world = (outcome, { world with console }) := by
  unfold newPassword
  rw [run_bind, run_ask]
  cases (world.console.ask Question.newPassword).1 with
  | error fault => exact ⟨_, _, rfl⟩
  | ok first =>
    dsimp only [mapError_ok]
    rw [run_bind, run_ask]
    dsimp only
    cases ((world.console.ask Question.newPassword).2.ask Question.again).1 with
    | error fault => exact ⟨_, _, rfl⟩
    | ok second =>
      dsimp only [mapError_ok]
      split
      · exact ⟨_, _, rfl⟩
      · exact ⟨_, _, rfl⟩

/-- Getting a new password keeps what does not depend on the terminal. -/
theorem preserves_newPassword (hask : ∀ world console, P world → P { world with console }) :
    Preserves P (newPassword : Action σ String) := by
  refine (preserves_ask _ hask).bind fun first => (preserves_ask _ hask).bind fun second => ?_
  split
  · exact preserves_pure first
  · exact fun _ h => h

end

end Action

namespace Session

open Lockbox.Action

variable {session : Session σ} {location : String}

/-! ### Opening -/

/-- What comes of opening a container with a password. -/
theorem run_openWith (session : Session σ) (location password : String) (world : World σ) :
    (session.openWith location password).run world =
      ((Storage.load session.codec world.files location password).mapError fun error =>
        { cause := .storage error, context := [s!"Unable to open container '{location}'"] },
        world) := by
  unfold openWith
  rw [Refusals.disk_nothing, run_bind_of_ok (run_files world), run_within_attempt]

/-- What it takes to open a container with a password. -/
theorem openWith_eq_ok {password : String} {container : Container} {world next : World σ} :
    (session.openWith location password).run world = (.ok container, next) ↔
      Storage.load session.codec world.files location password = .ok container ∧ next = world := by
  rw [run_openWith, Prod.mk.injEq, mapError_eq_ok, eq_comm (a := world)]

/-- What it takes to open a container. -/
theorem unlock_eq_ok {password : String} {container : Container} {world asked : World σ} :
    (session.unlock location).run world = (.ok (container, password), asked) ↔
      Storage.check location = .ok () ∧
        (Action.password session.agent location).run world = (.ok password, asked) ∧
        Storage.load session.codec asked.files location password = .ok container := by
  unfold unlock
  rw [run_bind_eq_ok]
  constructor
  · rintro ⟨_, checked, hattempt, hrest⟩
    obtain ⟨hcheck, rfl⟩ := run_attempt_eq_ok.mp hattempt
    obtain ⟨typed, next, hpassword, hlast⟩ := run_bind_eq_ok.mp hrest
    obtain ⟨opened, last, hopen, hresult⟩ := run_bind_eq_ok.mp hlast
    obtain ⟨hload, rfl⟩ := openWith_eq_ok.mp hopen
    rw [run_pure, Prod.mk.injEq, Except.ok.injEq, Prod.mk.injEq] at hresult
    obtain ⟨⟨rfl, rfl⟩, rfl⟩ := hresult
    exact ⟨hcheck, run_within_eq_ok.mp hpassword, hload⟩
  · rintro ⟨hcheck, hpassword, hload⟩
    refine ⟨(), world, run_attempt_eq_ok.mpr ⟨hcheck, rfl⟩, ?_⟩
    rw [run_bind_of_ok (run_within_eq_ok.mpr hpassword),
      run_bind_of_ok (openWith_eq_ok.mpr ⟨hload, rfl⟩)]
    rfl

/-- Opening a container keeps what depends neither on the agent nor on the terminal. -/
theorem preserves_unlock {P : World σ → Prop} (location : String)
    (hpassword : Preserves P (Action.password session.agent location))
    (refusals : Refusals := .nothing) : Preserves P (session.unlock location refusals) := by
  refine (preserves_attempt _ _).bind fun _ => (preserves_within hpassword).bind fun password => ?_
  refine Preserves.bind ?_ fun container => preserves_pure (container, password)
  exact preserves_files.bind fun files => preserves_within (preserves_attempt _ _)

/-! ### Making -/

/-- A container is made once there is nothing to be seen and a password has been typed. -/
theorem run_init (d : Derivation) {password : String} {world typed : World σ}
    (hcheck : Storage.check location = .ok ())
    (hexists : Storage.exists? world.files location = .ok false)
    (hpassword : newPassword.run world = (.ok password, typed)) :
    (session.init location d).run world =
      (onStorage .storage (Storage.save session.codec location password (.empty d))).run typed := by
  unfold init
  rw [Refusals.disk_nothing, run_bind_of_ok (run_attempt_eq_ok.mpr ⟨hcheck, rfl⟩), run_bind_of_ok (run_files world),
    run_bind_of_ok (run_attempt_eq_ok.mpr ⟨hexists, rfl⟩)]
  dsimp only
  rw [if_neg Bool.false_ne_true, run_bind_of_ok hpassword]

/-- It is made if there is a place for its file. -/
theorem run_init_of_target (hworks : session.codec.Works) (d : Derivation) {password : String}
    {world typed : World σ} {slot : Files.Slot}
    (hcheck : Storage.check location = .ok ())
    (hexists : Storage.exists? world.files location = .ok false)
    (hpassword : newPassword.run world = (.ok password, typed))
    (htarget : typed.files.IsTarget location slot) :
    ∃ stored entropy, Storage.Sealed session.codec password (.empty d) stored ∧
      (session.init location d).run world =
        (.ok (), { typed with
          files := typed.files.insert slot.path (.file stored 0o600), entropy }) := by
  obtain ⟨stored, entropy, hsealed, hsave⟩ :=
    Storage.save_of_target hworks typed.toStorage htarget password (.empty d)
  refine ⟨stored, entropy, hsealed, ?_⟩
  rw [run_init d hcheck hexists hpassword, run_onStorage, hsave]
  rfl

/-- **Making a container** puts a container that opens under the password typed where there was
    nothing to be seen, or leaves the files and the agent as they are. -/
theorem init_cases (hworks : session.codec.Works) (location : String) (d : Derivation)
    (world : World σ) :
    (∃ failure entropy console, (session.init location d).run world =
        (.error failure, { world with entropy, console })) ∨
      ∃ password console slot stored entropy, Storage.check location = .ok () ∧
        Storage.exists? world.files location = .ok false ∧
        newPassword.run world = (.ok password, { world with console }) ∧
        world.files.IsTarget location slot ∧
        Storage.Sealed session.codec password (.empty d) stored ∧
        (session.init location d).run world =
          (.ok (), { world with
            files := world.files.insert slot.path (.file stored 0o600), entropy, console }) := by
  have hchecked := run_attempt Cause.storage (Storage.check location) world
  have hlooked := run_attempt Cause.storage (Storage.exists? world.files location) world
  -- Making a container can stop at each of its steps; only the last one touches the files.
  cases hcheck : Storage.check location with
  | error error =>
    rw [hcheck] at hchecked
    refine .inl ⟨{ cause := .storage error }, world.entropy, world.console, ?_⟩
    unfold init
    rw [hcheck, run_bind_of_error hchecked]
  | ok _ =>
    rw [hcheck] at hchecked
    cases hexists : Storage.exists? world.files location with
    | error error =>
      rw [hexists] at hlooked
      refine .inl ⟨{ cause := .storage error }, world.entropy, world.console, ?_⟩
      unfold init
      rw [Refusals.disk_nothing, hcheck, run_bind_of_ok hchecked, run_bind_of_ok (run_files world), hexists,
        run_bind_of_error hlooked]
    | ok found =>
      rw [hexists] at hlooked
      cases found with
      | true =>
        refine .inl ⟨{ cause := .containerExists location }, world.entropy, world.console, ?_⟩
        unfold init
        rw [Refusals.disk_nothing, hcheck, run_bind_of_ok hchecked, run_bind_of_ok (run_files world), hexists,
          run_bind_of_ok hlooked]
        exact run_bind_of_error rfl
      | false =>
        -- Only the terminal is not what it was once the password has been typed.
        obtain ⟨outcome, console, hpassword⟩ := newPassword_frame world
        cases outcome with
        | error failure =>
          refine .inl ⟨failure, world.entropy, console, ?_⟩
          unfold init
          rw [Refusals.disk_nothing, hcheck, run_bind_of_ok hchecked, run_bind_of_ok (run_files world), hexists,
            run_bind_of_ok hlooked]
          exact run_bind_of_error hpassword
        | ok password =>
          rw [run_init d hcheck hexists hpassword, run_onStorage]
          dsimp only
          rcases Storage.save_cases hworks location password (.empty d) world.toStorage with
            ⟨fault, entropy, hsave⟩ | ⟨slot, stored, entropy, htarget, hsealed, hsave⟩
          · rw [hsave]
            exact .inl ⟨_, entropy, console, rfl⟩
          · rw [hsave]
            exact .inr ⟨password, console, slot, stored, entropy, rfl, rfl, hpassword, htarget,
              hsealed, rfl⟩

/-! ### Changing -/

/-- What comes of storing a container. -/
theorem run_store {password : String} {container : Container} {world : World σ} {storage : Storage}
    {outcome : Except StorageError Unit}
    (hsave : (Storage.save session.codec location password container).run world.toStorage =
      (outcome, storage)) :
    (within s!"Unable to save container '{location}'" <|
        onStorage .storage (Storage.save session.codec location password container)).run world =
      (outcome.mapError fun error =>
        { cause := .storage error, context := [s!"Unable to save container '{location}'"] },
        { world with toStorage := storage }) := by
  rw [run_within, run_onStorage, hsave]
  cases outcome <;> rfl

/-- A change that the container refuses is not stored. -/
theorem run_modify_of_error {edit : Container → Except ContainerError (α × Container)}
    {container : Container} {password : String} {error : ContainerError} {world asked : World σ}
    (hunlock : (session.unlock location).run world = (.ok (container, password), asked))
    (hedit : edit container = .error error) :
    (session.modify location edit).run world =
      (.error { cause := .storage (.container error) }, asked) := by
  unfold modify
  rw [run_bind_of_ok hunlock]
  dsimp only
  rw [hedit]
  exact run_bind_of_error rfl

/-- A change that the container allows is stored under the password that opened it, if it can be. -/
theorem run_modify_of_ok {edit : Container → Except ContainerError (α × Container)}
    {container changed : Container} {password : String} {result : α} {world asked : World σ}
    (hunlock : (session.unlock location).run world = (.ok (container, password), asked))
    (hedit : edit container = .ok (result, changed)) :
    (session.modify location edit).run world =
      (do
        within s!"Unable to save container '{location}'" <|
          onStorage .storage (Storage.save session.codec location password changed)
        return result : Action σ α).run asked := by
  unfold modify
  rw [run_bind_of_ok hunlock]
  dsimp only
  rw [hedit]
  exact run_bind_of_ok (a := (result, changed)) rfl

/-- **Changing a container** puts one that opens under the same password in its place, or leaves
    everything as it is once the password is known. -/
theorem modify_cases (hworks : session.codec.Works) (location : String)
    (edit : Container → Except ContainerError (α × Container)) (world : World σ) :
    (∃ failure entropy, (session.modify location edit).run world =
        (.error failure, { ((session.unlock location).run world).2 with entropy })) ∨
      ∃ container changed password result asked slot stored entropy,
        (session.unlock location).run world = (.ok (container, password), asked) ∧
        asked.files.IsTarget location slot ∧
        Storage.Sealed session.codec password changed stored ∧
        (session.modify location edit).run world =
          (.ok result, { asked with
            files := asked.files.insert slot.path (.file stored 0o600), entropy }) := by
  rcases hunlock : (session.unlock location).run world with ⟨outcome, asked⟩
  cases outcome with
  | error failure =>
    refine .inl ⟨failure, asked.entropy, ?_⟩
    unfold modify
    exact run_bind_of_error hunlock
  | ok opened =>
    obtain ⟨container, password⟩ := opened
    rcases hedit : edit container with error | ⟨result, changed⟩
    · exact .inl ⟨_, asked.entropy, run_modify_of_error hunlock hedit⟩
    -- What remains is storing, which does what it should or leaves the files alone.
    · rw [run_modify_of_ok hunlock hedit]
      rcases Storage.save_cases hworks location password changed asked.toStorage with
        ⟨fault, entropy, hsave⟩ | ⟨slot, stored, entropy, htarget, hsealed, hsave⟩
      · exact .inl ⟨_, entropy, run_bind_of_error (run_store hsave)⟩
      · rw [run_bind_of_ok (run_store hsave)]
        exact .inr ⟨container, changed, password, result, asked, slot, stored, entropy, rfl,
          htarget, hsealed, rfl⟩

/-! ### The agent -/

/-- Gives the agent a password. -/
def give (session : Session σ) (name password : String) : Action σ Unit :=
  within "Unable to set password in pwserv" do
    attempt .agent (← askAgent (session.agent.set name password))

/-- What comes of giving the agent a password. -/
theorem run_give (session : Session σ) (name password : String) (world : World σ) :
    (session.give name password).run world =
      (((session.agent.set name password).run world.store).1.mapError fun error =>
        { cause := .agent error, context := ["Unable to set password in pwserv"] },
        { world with store := ((session.agent.set name password).run world.store).2 }) := by
  unfold give
  rw [run_within, run_bind_of_ok (run_askAgent _ world), run_attempt]
  cases ((session.agent.set name password).run world.store).1 <;> rfl

/-- A password that opens the container is given to the agent. -/
theorem run_remember {name password : String} {container : Container} {world asked : World σ}
    (hcheck : Storage.check location = .ok ())
    (hask : (ask Question.password).run world = (.ok password, asked))
    (hload : Storage.load session.codec asked.files location password = .ok container)
    (hname : Location.fingerprint asked.files.workingDirectory location = .ok name) :
    (session.remember location).run world = (session.give name password).run asked := by
  unfold remember
  rw [run_bind_of_ok (run_attempt_eq_ok.mpr ⟨hcheck, rfl⟩), run_bind_of_ok hask,
    run_bind_of_ok (openWith_eq_ok.mpr ⟨hload, rfl⟩), run_bind_of_ok (run_files asked),
    run_bind_of_ok (run_attempt_eq_ok.mpr ⟨hname, rfl⟩)]
  rfl

/-- **Remembering a password** gives the agent one that has been typed and that opens the container
    at this moment, or only asks. -/
theorem remember_cases (session : Session σ) (location : String) (world : World σ) :
    (∃ failure console, (session.remember location).run world =
        (.error failure, { world with console })) ∨
      ∃ name password container console, Storage.check location = .ok () ∧
        Location.fingerprint world.files.workingDirectory location = .ok name ∧
        world.console.ask Question.password = (.ok password, console) ∧
        Storage.load session.codec world.files location password = .ok container ∧
        (session.remember location).run world =
          (session.give name password).run { world with console } := by
  have hchecked := run_attempt Cause.storage (Storage.check location) world
  have hask := run_ask Question.password world
  -- Remembering can stop at each of its steps, and until the last one it only asks.
  cases hcheck : Storage.check location with
  | error error =>
    rw [hcheck] at hchecked
    refine .inl ⟨{ cause := .storage error }, world.console, ?_⟩
    unfold remember
    rw [hcheck, run_bind_of_error hchecked]
  | ok _ =>
    rw [hcheck] at hchecked
    rcases hanswer : world.console.ask Question.password with ⟨fault | password, console⟩
    · rw [hanswer] at hask
      refine .inl ⟨{ cause := .fault fault }, console, ?_⟩
      unfold remember
      rw [hcheck, run_bind_of_ok hchecked, run_bind_of_error hask]
    · rw [hanswer] at hask
      have hopen := session.run_openWith location password { world with console }
      dsimp only at hopen
      rcases hload : Storage.load session.codec world.files location password with error | container
      · rw [hload] at hopen
        refine .inl ⟨{ cause := .storage error
                       context := [s!"Unable to open container '{location}'"] }, console, ?_⟩
        unfold remember
        rw [hcheck, run_bind_of_ok hchecked, run_bind_of_ok hask]
        exact run_bind_of_error hopen
      · rw [hload] at hopen
        cases hname : Location.fingerprint world.files.workingDirectory location with
        | error fault =>
          refine .inl ⟨{ cause := .unlocatable fault }, console, ?_⟩
          unfold remember
          rw [hcheck, run_bind_of_ok hchecked, run_bind_of_ok hask, run_bind_of_ok hopen,
            run_bind_of_ok (run_files _), hname]
          exact run_bind_of_error rfl
        | ok name =>
          exact .inr ⟨name, password, container, console, rfl, rfl, rfl, hload,
            run_remember hcheck hask hload hname⟩

/-- What comes of forgetting a password, once the location has a name. -/
theorem run_forget (session : Session σ) (world : World σ) {name : String}
    (hname : Location.fingerprint world.files.workingDirectory location = .ok name) :
    (session.forget location).run world =
      (((session.agent.reset name).run world.store).1.mapError fun error =>
        { cause := .agent error, context := ["Unable to reset password in pwserv"] },
        { world with store := ((session.agent.reset name).run world.store).2 }) := by
  unfold forget
  rw [run_bind_of_ok (run_files world), run_bind_of_ok (run_attempt_eq_ok.mpr ⟨hname, rfl⟩),
    run_within, run_bind_of_ok (run_askAgent _ world), run_attempt]
  cases ((session.agent.reset name).run world.store).1 <;> rfl

/-- Nothing is forgotten where the location has no name. -/
theorem run_forget_of_error (session : Session σ) (world : World σ) {fault : Fault}
    (hname : Location.fingerprint world.files.workingDirectory location = .error fault) :
    (session.forget location).run world = (.error { cause := .unlocatable fault }, world) := by
  have hlocated := run_attempt Cause.unlocatable
    (Location.fingerprint world.files.workingDirectory location) world
  rw [hname] at hlocated
  unfold forget
  rw [run_bind_of_ok (run_files world), hname]
  exact run_bind_of_error hlocated

end Session

end Lockbox
