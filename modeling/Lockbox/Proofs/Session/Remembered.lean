import Lockbox.Proofs.Agent.Keeping
import Lockbox.Proofs.Files.Plain
import Lockbox.Proofs.Location
import Lockbox.Proofs.Session.Refinement

namespace Lockbox

/-!
# Remembered passwords stay good

A password that an agent keeps opens the container that it was remembered for, whatever has been
done since.  For without links the name that the agent keeps it under and the file that the
container is in go together: whoever writes the path of the container in another way, and stores
something there, has got the password from the agent.

* `SessionCommand`, `note` — commands, and the locations that passwords were remembered for.
* `Reaches` — the runs of commands.
* `Remembers` — what every run keeps; `preserves_init`, `preserves_modify`, `remembers_remember` and
  its like for the single commands.
* `remembered_password_opens` — what every run comes to.
-/

/-! ### Commands -/

/-- A command that writes no file but containers. -/
inductive SessionCommand
  | init (location : String) (d : Derivation)
  | container (location : String) (command : ContainerCommand)
  | encrypt (input : String) (d : Derivation)
  | decrypt (input : String)
  | remember (location : String)
  | forget (location : String)

/-- For each name that a password can be kept under, the location that it was last remembered
    for. -/
abbrev Notes := Std.ExtTreeMap String String

namespace SessionCommand

/-- Gives a command. -/
def run {σ : Type} (session : Session σ) : SessionCommand → Action σ Unit
  | init location d => session.init location d
  | container location command => command.run session location
  | encrypt input d => session.encrypt input none d
  | decrypt input => session.decrypt input none
  | remember location => session.remember location
  | forget location => session.forget location

/-- The notes once a command has ended.  Only a password that has been remembered is noted. -/
def note (workingDirectory : Path) (notes : Notes) : SessionCommand → Except Failure Unit → Notes
  | remember location, .ok () =>
    match Location.fingerprint workingDirectory location with
    | .ok name => notes.insert name location
    | .error _ => notes
  | _, _ => notes

end SessionCommand

/-- The worlds that one gets to by giving commands, whatever is typed at them, where there are no
    links and the agent keeps nothing at first, each with its notes. -/
inductive Reaches (session : Session Cache) : World Cache → Notes → Prop
  /-- No command has been given. -/
  | start (storage : Storage) (console : Console) (output : Bytes)
      (hplain : storage.files.IsPlain) :
      Reaches session { toStorage := storage, store := ∅, console, output } ∅
  /-- A command has been given. -/
  | step {world : World Cache} {notes : Notes} (command : SessionCommand) (console : Console)
      (h : Reaches session world notes) :
      Reaches session ((command.run session).run { world with console }).2
        (command.note world.files.workingDirectory notes
          ((command.run session).run { world with console }).1)

/-- What a run comes to with one more command. -/
theorem Reaches.next {session : Session Cache} {world next : World Cache} {notes : Notes}
    (h : Reaches session world notes) (command : SessionCommand) {console : Console}
    {outcome : Except Failure Unit}
    (hrun : (command.run session).run { world with console } = (outcome, next)) :
    Reaches session next (command.note world.files.workingDirectory notes outcome) := by
  have hstep := Reaches.step command console h
  rw [hrun] at hstep
  exact hstep

/-! ### The invariant -/

/-- Does the container at a location open under a password that is kept under a name? -/
def OpensUnder (codec : Codec) (files : Files) (name location password : String) : Prop :=
  Storage.check location = .ok () ∧
    Location.fingerprint files.workingDirectory location = .ok name ∧
    ∃ container, Storage.load codec files location password = .ok container

/-- Every password that is kept opens the container that it was remembered for. -/
structure Remembers (session : Session Cache) (Ready : Cache → Prop) (notes : Notes)
    (world : World Cache) : Prop where
  /-- There are no links. -/
  plain : world.files.IsPlain
  /-- The agent is ready. -/
  ready : Ready world.store
  /-- The passwords that are kept, but for the empty one, which is none. -/
  opens : ∀ {name password location : String}, world.store[name]? = some password →
    password ≠ "" → notes[name]? = some location →
    OpensUnder session.codec world.files name location password

variable {session : Session Cache} {Ready : Cache → Prop} {notes : Notes}

namespace Remembers

variable {world next : World Cache}

/-- Nothing else matters than the files and the agent. -/
theorem of_same (h : Remembers session Ready notes world) (hfiles : next.files = world.files)
    (hstore : next.store = world.store) : Remembers session Ready notes next := by
  constructor
  · rw [hfiles]
    exact h.plain
  · rw [hstore]
    exact h.ready
  · rw [hfiles, hstore]
    exact h.opens

/-- A file can be put where it opens under the password that is kept for it. -/
theorem insert (h : Remembers session Ready notes world) {path : Path} {stored : Bytes}
    (hpath : world.files.IsReplaceable path)
    (hfiles : next.files = world.files.insert path (.file stored 0o600))
    (hstore : next.store = world.store)
    (hsealed : ∀ {name password location}, world.store[name]? = some password → password ≠ "" →
      OpensUnder session.codec world.files name location password →
      Path.absolute world.files.workingDirectory location = path →
      ∃ container, Storage.Sealed session.codec password container stored) :
    Remembers session Ready notes next := by
  constructor
  · rw [hfiles]
    exact h.plain.insert hpath.1 stored 0o600
  · rw [hstore]
    exact h.ready
  · intro name password location hkept hpassword hnoted
    rw [hstore] at hkept
    have hopens := h.opens hkept hpassword hnoted
    obtain ⟨hcheck, hname, container, hload⟩ := id hopens
    obtain ⟨old, hold⟩ := Storage.read_of_load hload
    have hread := Files.read_insert_file h.plain hpath hold stored 0o600
    rw [← hfiles] at hread
    refine ⟨hcheck, ?_, ?_⟩
    · rw [hfiles]
      exact hname
    -- The container is in the file that has been put, or it is where it was before.
    · by_cases heq : Path.absolute world.files.workingDirectory location = path
      · obtain ⟨new, hnew⟩ := hsealed hkept hpassword hopens heq
        rw [if_pos heq] at hread
        exact ⟨new, Storage.load_of_read hread hnew⟩
      · rw [if_neg heq, ← hold] at hread
        exact ⟨container, (Storage.load_congr hread session.codec password).trans hload⟩

end Remembers

/-! ### Names and paths -/

/-- Two locations that stand for one path have one fingerprint. -/
theorem fingerprint_eq_of_absolute {workingDirectory : Path} {location other name : String}
    (hlocation : Storage.check location = .ok ()) (hother : Storage.check other = .ok ())
    (hempty : other ≠ "")
    (hpath : Path.absolute workingDirectory location = Path.absolute workingDirectory other)
    (hname : Location.fingerprint workingDirectory location = .ok name) :
    Location.fingerprint workingDirectory other = .ok name := by
  rw [Storage.check_eq_ok] at hlocation hother
  -- The canonical form is the path itself, but for the empty location, which has none.
  by_cases hnothing : location = ""
  · rw [hnothing] at hname
    cases hname
  · rw [Location.fingerprint_of_local hlocation hnothing, hpath] at hname
    rw [Location.fingerprint_of_local hother hempty]
    exact hname

/-- A written path that names a place is not empty. -/
theorem ne_empty_of_isTarget {files : Files} {location : String} {slot : Files.Slot}
    (h : files.IsTarget location slot) : location ≠ "" := by
  rintro rfl
  have hcheck := (Files.slot_eq_ok.mp h.named).1
  cases hcheck

/-! ### Asking -/

section

variable (hkeeps : session.agent.Keeps Ready) {world : World Cache}
include hkeeps

/-- A password that is kept is the one that is got, and nobody is asked. -/
theorem run_password_of_kept (world : World Cache) (hready : Ready world.store)
    {name location password : String}
    (hname : Location.fingerprint world.files.workingDirectory location = .ok name)
    (hkept : world.store[name]? = some password) (hpassword : password ≠ "") :
    (Action.password session.agent location).run world = (.ok password, world) := by
  obtain ⟨outcome, hget, hfound⟩ := hkeeps.get name hready
  obtain rfl := (hfound password).mpr hkept
  exact Action.run_password_of_get hname hget hpassword

/-- Getting a password changes neither the files nor the agent. -/
theorem password_same (hready : Ready world.store) (location : String) :
    ((Action.password session.agent location).run world).2.files = world.files ∧
      ((Action.password session.agent location).run world).2.store = world.store := by
  apply Action.preserves_password
    (P := fun next => next.files = world.files ∧ next.store = world.store)
  · rintro name next ⟨hfiles, hstore⟩
    obtain ⟨outcome, hget, -⟩ := hkeeps.get name hready
    refine ⟨hfiles, ?_⟩
    show ((session.agent.get name).run next.store).2 = world.store
    rw [hstore, hget]
  · exact fun _ _ h => h
  · exact ⟨rfl, rfl⟩

/-- Getting a password keeps the passwords good. -/
theorem preserves_password_remembers (location : String) :
    Preserves (Remembers session Ready notes) (Action.password session.agent location) := by
  intro world h
  obtain ⟨hfiles, hstore⟩ := password_same hkeeps h.ready location
  exact h.of_same hfiles hstore

theorem preserves_unlock_remembers (location : String) :
    Preserves (Remembers session Ready notes) (session.unlock location) :=
  Session.preserves_unlock location (preserves_password_remembers hkeeps location)

end

/-! ### Storing -/

/-- Making a container keeps the passwords good: nothing was there that one of them could open. -/
theorem preserves_init (hworks : session.codec.Works) (location : String) (d : Derivation) :
    Preserves (Remembers session Ready notes) (session.init location d) := by
  intro world h
  rcases Session.init_cases hworks location d world with
    ⟨failure, entropy, console, hrun⟩ |
      ⟨password, console, slot, stored, entropy, -, hexists, -, htarget, -, hrun⟩
  · rw [hrun]
    exact h.of_same rfl rfl
  · rw [hrun]
    refine h.insert (htarget.isReplaceable h.plain) rfl rfl ?_
    intro name kept other _ _ hopens hpath
    -- A container that is at this path would have been seen.
    obtain ⟨-, -, container, hload⟩ := hopens
    obtain ⟨old, hold⟩ := Storage.read_of_load hload
    obtain ⟨mode, hentry⟩ := Files.entry?_of_read h.plain hold
    rw [hpath, htarget.vacant_of_exists? h.plain (mapError_eq_ok.mp hexists)] at hentry
    cases hentry

/-- Changing a container keeps the passwords good: one that is kept for its path is the one that it
    is stored under. -/
theorem preserves_modify {α : Type} (hworks : session.codec.Works)
    (hkeeps : session.agent.Keeps Ready) (location : String)
    (edit : Container → Except ContainerError (α × Container)) :
    Preserves (Remembers session Ready notes) (session.modify location edit) := by
  intro world h
  have hasked := preserves_unlock_remembers hkeeps location world h
  rcases Session.modify_cases hworks location edit world with
    ⟨failure, entropy, hrun⟩ |
      ⟨container, changed, password, result, asked, slot, stored, entropy, hunlock, htarget,
        hsealed, hrun⟩
  · rw [hrun]
    exact hasked.of_same rfl rfl
  · rw [hunlock] at hasked
    obtain ⟨hcheck, hpassword, -⟩ := Session.unlock_eq_ok.mp hunlock
    have hsame := password_same hkeeps h.ready location
    rw [hpassword] at hsame
    obtain ⟨hfiles, hstore⟩ := hsame
    dsimp only at hasked hfiles hstore
    rw [hrun]
    refine hasked.insert (htarget.isReplaceable hasked.plain) rfl rfl ?_
    -- The other location stands for the same path. So it has the same name, and the password that
    -- was got for this one is the one that is kept.
    intro name kept other hkept hproper hopens hpath
    obtain ⟨hother, hname, -⟩ := hopens
    rw [htarget.path_eq_absolute hasked.plain] at hpath
    have hsamename := fingerprint_eq_of_absolute hother hcheck (ne_empty_of_isTarget htarget) hpath
      hname
    rw [hfiles] at hsamename
    rw [hstore] at hkept
    have hgot := run_password_of_kept hkeeps world h.ready hsamename hkept hproper
    rw [hpassword] at hgot
    obtain rfl := Except.ok.inj (Prod.mk.inj hgot).1
    exact ⟨changed, hsealed⟩

/-! ### Every command but remembering -/

section

variable (hworks : session.codec.Works) (hkeeps : session.agent.Keeps Ready)

/-- What is typed does not matter. -/
theorem remembers_console (world : World Cache) (console : Console)
    (h : Remembers session Ready notes world) :
    Remembers session Ready notes { world with console } := h.of_same rfl rfl

/-- What is printed does not matter. -/
theorem remembers_output (world : World Cache) (output : Bytes)
    (h : Remembers session Ready notes world) :
    Remembers session Ready notes { world with output } := h.of_same rfl rfl

include hworks hkeeps in
/-- Every command on a container keeps the passwords good. -/
theorem preserves_command (location : String) (command : ContainerCommand) :
    Preserves (Remembers session Ready notes) (command.run session location) := by
  have hunlock : Preserves (Remembers session Ready notes) (session.unlock location) :=
    preserves_unlock_remembers hkeeps location
  cases command with
  | list =>
    refine hunlock.bind fun opened => ?_
    exact Action.preserves_emit _ remembers_output
  | get name =>
    refine hunlock.bind fun opened => ?_
    refine (Action.preserves_attempt _ _).bind fun text => ?_
    exact Action.preserves_emit _ remembers_output
  | put name valueFile =>
    refine Action.preserves_files.bind fun files => ?_
    refine (Action.preserves_within (Action.preserves_attempt _ _)).bind fun text => ?_
    refine (preserves_modify hworks hkeeps location _).bind fun replaced => ?_
    exact Action.preserves_emit _ remembers_output
  | delete name => exact preserves_modify hworks hkeeps location _
  | rename name newName => exact preserves_modify hworks hkeeps location _

/-- Encrypting a file to the output keeps the passwords good. -/
theorem preserves_encrypt (input : String) (d : Derivation) :
    Preserves (Remembers session Ready notes) (session.encrypt input none d) := by
  refine Action.preserves_files.bind fun files => ?_
  refine (Action.preserves_within (Action.preserves_attempt _ _)).bind fun text => ?_
  refine (Action.preserves_newPassword remembers_console).bind fun password => ?_
  refine (Action.preserves_within (Action.preserves_onStorage ?_)).bind fun stored => ?_
  · exact fun world h => h.of_same rfl rfl
  · exact Action.preserves_emit _ remembers_output

include hkeeps in
/-- Decrypting a file to the output keeps the passwords good. -/
theorem preserves_decrypt (input : String) :
    Preserves (Remembers session Ready notes) (session.decrypt input none) := by
  refine Action.preserves_files.bind fun files => ?_
  refine (Action.preserves_within (Action.preserves_attempt _ _)).bind fun stored => ?_
  refine (preserves_password_remembers hkeeps input).bind fun password => ?_
  refine (Action.preserves_within (Action.preserves_attempt _ _)).bind fun text => ?_
  exact Action.preserves_emit _ remembers_output

include hkeeps in
/-- Forgetting a password keeps the others good. -/
theorem preserves_forget (location : String) :
    Preserves (Remembers session Ready notes) (session.forget location) := by
  refine Action.preserves_files.bind fun files => ?_
  refine (Action.preserves_attempt _ _).bind fun name => Action.preserves_within ?_
  refine Preserves.bind (Action.preserves_askAgent ?_) fun outcome =>
    Action.preserves_attempt .agent outcome
  intro world h
  rcases hkeeps.reset name h.ready with ⟨hreset, hready⟩ | ⟨error, hreset⟩
  · rw [hreset]
    refine ⟨h.plain, hready, ?_⟩
    -- What is still kept was kept before.
    intro other password location hkept hpassword hnoted
    apply h.opens _ hpassword hnoted
    rw [Std.ExtTreeMap.getElem?_erase] at hkept
    split at hkept
    · cases hkept
    · exact hkept
  · rw [hreset]
    exact h.of_same rfl rfl

/-! ### Remembering -/

include hkeeps in
/-- Giving the agent a password changes nothing if the agent refuses it. -/
theorem give_cases (name password : String) (world : World Cache) (hready : Ready world.store) :
    (∃ failure, (session.give name password).run world = (.error failure, world)) ∨
      Ready (world.store.insert name password) ∧
        (session.give name password).run world =
          (.ok (), { world with store := world.store.insert name password }) := by
  rw [Session.run_give]
  rcases hkeeps.set name password hready with ⟨hset, hnext⟩ | ⟨error, hset⟩
  · rw [hset]
    exact .inr ⟨hnext, rfl⟩
  · rw [hset]
    exact .inl ⟨_, rfl⟩

include hkeeps in
/-- **Remembering a password** gives the agent one that opens the container, or changes nothing. -/
theorem remember_cases (location : String) {world : World Cache} (hready : Ready world.store) :
    (∃ failure console, (session.remember location).run world =
        (.error failure, { world with console })) ∨
      ∃ name password console, OpensUnder session.codec world.files name location password ∧
        Ready (world.store.insert name password) ∧
        (session.remember location).run world =
          (.ok (), { world with store := world.store.insert name password, console }) := by
  rcases session.remember_cases location world with
    hfailed | ⟨name, password, container, console, hcheck, hname, -, hload, hrun⟩
  · exact .inl hfailed
  · rw [hrun]
    rcases give_cases hkeeps name password { world with console } hready with
      ⟨failure, hgive⟩ | ⟨hnext, hgive⟩
    · exact .inl ⟨failure, console, hgive⟩
    · exact .inr ⟨name, password, console, ⟨hcheck, hname, container, hload⟩, hnext, hgive⟩

include hkeeps in
/-- Remembering keeps the passwords good, and notes the one that is remembered. -/
theorem remembers_remember (location : String) {world : World Cache}
    (h : Remembers session Ready notes world) :
    Remembers session Ready
      ((SessionCommand.remember location).note world.files.workingDirectory notes
        ((session.remember location).run world).1)
      ((session.remember location).run world).2 := by
  rcases remember_cases hkeeps location h.ready with
    ⟨failure, console, hrun⟩ | ⟨name, password, console, hopens, hready, hrun⟩
  · rw [hrun]
    exact h.of_same rfl rfl
  · have hnote : (SessionCommand.remember location).note world.files.workingDirectory notes
        (.ok ()) = notes.insert name location := by
      rw [SessionCommand.note, hopens.2.1]
    rw [hrun]
    dsimp only
    rw [hnote]
    refine ⟨h.plain, hready, ?_⟩
    intro other kept place hkept hproper hnoted
    rw [Std.ExtTreeMap.getElem?_insert] at hkept hnoted
    -- Under the name that is new there are the new password and its location; under the others
    -- nothing is new.
    by_cases hother : compare name other = .eq
    · obtain rfl := Std.LawfulEqCmp.eq_of_compare hother
      rw [if_pos hother, Option.some.injEq] at hkept hnoted
      rw [← hkept, ← hnoted]
      exact hopens
    · rw [if_neg hother] at hkept hnoted
      exact h.opens hkept hproper hnoted

/-! ### Every run -/

include hworks hkeeps

/-- Every command keeps the passwords good. -/
theorem remembers_step (command : SessionCommand) {world : World Cache}
    (h : Remembers session Ready notes world) :
    Remembers session Ready
      (command.note world.files.workingDirectory notes ((command.run session).run world).1)
      ((command.run session).run world).2 := by
  cases command with
  | init location d => exact preserves_init hworks location d world h
  | container location command => exact preserves_command hworks hkeeps location command world h
  | encrypt input d => exact preserves_encrypt input d world h
  | decrypt input => exact preserves_decrypt hkeeps input world h
  | remember location => exact remembers_remember hkeeps location h
  | forget location => exact preserves_forget hkeeps location world h

/-- Every run keeps the passwords good. -/
theorem Reaches.remembers {world : World Cache} (h : Reaches session world notes) :
    Remembers session Ready notes world := by
  -- On the run, whose every step keeps the invariant; at its start nothing is kept.
  induction h with
  | start storage console output hplain =>
    refine ⟨hplain, hkeeps.ready, ?_⟩
    intro name password location hkept
    rw [Std.ExtTreeMap.getElem?_empty] at hkept
    cases hkept
  | step command console _ ih =>
    exact remembers_step hworks hkeeps command (remembers_console _ console ih)

end

/-- A command asks nothing at the terminal if opening the container asks nothing. -/
theorem console_run {σ : Type} {session : Session σ} {location : String} {world : World σ}
    {opened : Container × String}
    (hunlock : (session.unlock location).run world = (.ok opened, world))
    (command : ContainerCommand) :
    ((command.run session location).run world).2.console = world.console := by
  have hemit : ∀ bytes, Preserves (fun next : World σ => next.console = world.console)
      (Action.emit bytes) := fun bytes => Action.preserves_emit bytes fun _ _ h => h
  -- Once the container is open there are only the edit and the storing, and neither asks.
  have hmodify : ∀ {α : Type} (edit : Container → Except ContainerError (α × Container)),
      ((session.modify location edit).run world).2.console = world.console := by
    intro α edit
    unfold Session.modify
    rw [run_bind_of_ok hunlock]
    refine Preserves.bind (P := fun next => next.console = world.console)
      (Action.preserves_attempt _ _) (fun changed => ?_) world rfl
    refine Preserves.bind ?_ fun _ => Action.preserves_pure _
    exact Action.preserves_within (Action.preserves_onStorage fun _ h => h)
  cases command with
  | list =>
    unfold ContainerCommand.run Session.list
    rw [run_bind_of_ok hunlock]
    rfl
  | get name =>
    unfold ContainerCommand.run Session.get
    rw [run_bind_of_ok hunlock]
    exact (Action.preserves_attempt _ _).bind (fun text => hemit _) world rfl
  | put name valueFile =>
    have hread := Action.run_within_attempt s!"Unable to load value data from '{valueFile}'"
      Cause.fault (world.files.readText valueFile) world
    unfold ContainerCommand.run Session.put
    rw [run_bind_of_ok (Action.run_files world), Refusals.disk_nothing, Disk.look_sound]
    rcases htext : world.files.readText valueFile with fault | text
    · rw [htext] at hread
      rw [run_bind_of_error hread]
    · rw [htext] at hread
      rw [run_bind_of_ok hread]
      exact run_bind_of_preserves (hmodify _) fun replaced => hemit _
  | delete name => exact hmodify _
  | rename name newName => exact hmodify _

/-- **A remembered password stays good.** In every world that a run of commands leads to, a password
    that is kept, and not empty, is kept under the name of the location that it was last remembered
    for and opens the container there; and a command on that container opens it with this password
    and asks nothing. -/
theorem remembered_password_opens {suite : Suite} (hcodec : session.codec = .ofSuite suite)
    (hagent : session.agent = .cache ∨ session.agent = .client (.serving .cache))
    {world : World Cache} (h : Reaches session world notes) {name location password : String}
    (hkept : world.store[name]? = some password) (hpassword : password ≠ "")
    (hnoted : notes[name]? = some location) :
    Location.fingerprint world.files.workingDirectory location = .ok name ∧
      ∃ container, Storage.load session.codec world.files location password = .ok container ∧
        ∀ console, (session.unlock location).run { world with console } =
            (.ok (container, password), { world with console }) ∧
          ∀ command : ContainerCommand,
            ((command.run session location).run { world with console }).2.console = console := by
  have hworks : session.codec.Works := by
    rw [hcodec]
    exact Codec.works_ofSuite suite
  obtain ⟨Ready, hkeeps⟩ : ∃ Ready, session.agent.Keeps Ready := by
    rcases hagent with hcache | hclient
    · rw [hcache]
      exact ⟨_, PasswordStore.keeps_cache⟩
    · rw [hclient]
      exact ⟨_, PasswordStore.keeps_client⟩
  have hremembers := h.remembers hworks hkeeps
  obtain ⟨hcheck, hname, container, hload⟩ := hremembers.opens hkept hpassword hnoted
  refine ⟨hname, container, hload, fun console => ?_⟩
  have hgot := run_password_of_kept hkeeps { world with console } hremembers.ready hname hkept
    hpassword
  have hunlock := Session.unlock_eq_ok.mpr ⟨hcheck, hgot, hload⟩
  exact ⟨hunlock, console_run hunlock⟩

/-- A container that has been made, with its password remembered. -/
theorem made_and_remembered_opens :
    let session : Session Cache := { codec := .ofSuite .chaCha20Poly1305, agent := .cache }
    ∃ (world : World Cache) (notes : Notes) (name : String), Reaches session world notes ∧
      world.store[name]? = some "p" ∧ notes[name]? = some "c" ∧
        Location.fingerprint world.files.workingDirectory "c" = .ok name ∧
        ∃ container, Storage.load session.codec world.files "c" "p" = .ok container := by
  intro session
  let storage : Storage := { entropy := ⟨fun _ => 0, 0⟩ }
  let typed (answers : List (Option String)) : Console := { answers }
  let world : World Cache :=
    { toStorage := storage, store := ∅, console := typed [some "p", some "p"], output := [] }
  have hworks : session.codec.Works := Codec.works_ofSuite .chaCha20Poly1305
  have htarget : storage.files.IsTarget "c" ⟨[], "c", false⟩ :=
    ⟨by decide, rfl, by decide, by decide, [".tmp100000"], by decide⟩
  have hpassword : Action.newPassword.run world = (.ok "p",
      { world with console := { shown := [Question.newPassword, Question.again] } }) := rfl
  obtain ⟨stored, next, hsealed, hfiles, hinit⟩ : ∃ stored next,
      Storage.Sealed session.codec "p" (.empty .scrypt) stored ∧
        next.files = storage.files.insert ["c"] (.file stored 0o600) ∧
        (session.init "c" .scrypt).run world = (.ok (), next) := by
    obtain ⟨stored, entropy, hsealed, hinit⟩ := Session.run_init_of_target hworks .scrypt
      (by decide) (show Storage.exists? world.files "c" = .ok false by decide) hpassword htarget
    exact ⟨stored, _, hsealed, rfl, hinit⟩
  have hreplaceable : storage.files.IsReplaceable ["c"] := ⟨by decide, .inl rfl⟩
  have hload : Storage.load session.codec next.files "c" "p" = .ok (.empty .scrypt) := by
    rw [hfiles]
    refine Storage.load_of_read ?_ hsealed
    exact (htarget.insert rfl hreplaceable stored 0o600).read
      (Files.entry?_insert_self (by decide))
  have hmade : Reaches session next ∅ :=
    (Reaches.start storage (typed []) [] (Files.isPlain_empty [])).next (.init "c" .scrypt) hinit
  have hname : Location.fingerprint next.files.workingDirectory "c" =
      .ok (Location.fingerprintOf "/c") := by
    rw [hfiles]
    exact Location.fingerprint_of_local (by decide) (by decide)
  -- The name itself does not matter, and it is long to work out.
  generalize Location.fingerprintOf "/c" = name at hname
  have hask : (Action.ask Question.password).run { next with console := typed [some "p"] } =
      (.ok "p", { next with console := { shown := [Question.password] } }) := rfl
  have hremember : (session.remember "c").run { next with console := typed [some "p"] } =
      (.ok (), { next with
        store := next.store.insert name "p", console := { shown := [Question.password] } }) := by
    rw [Session.run_remember (by decide) hask hload hname]
    rfl
  have hreaches := hmade.next (.remember "c") hremember
  have hkept : (next.store.insert name "p")[name]? = some "p" := Std.ExtTreeMap.getElem?_insert_self
  have hnoted : ((SessionCommand.remember "c").note next.files.workingDirectory ∅ (.ok ()))[name]? =
      some "c" := by
    rw [SessionCommand.note, hname]
    exact Std.ExtTreeMap.getElem?_insert_self
  obtain ⟨hsame, container, hopens, -⟩ :=
    remembered_password_opens rfl (.inl rfl) hreaches hkept (by decide) hnoted
  exact ⟨_, _, name, hreaches, hkept, hnoted, hsame, container, hopens⟩

end Lockbox
