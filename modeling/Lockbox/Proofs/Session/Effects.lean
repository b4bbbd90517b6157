import Lockbox.Proofs.Credentials.Recovery
import Lockbox.Proofs.Files.Taken
import Lockbox.Proofs.Session.Failures

namespace Lockbox

/-!
# What tasks leave behind

A task that succeeds has changed no more than what it is for: one directory entry, which is a new
file as a whole, or one password that an agent keeps.  All the other entries are what they were, be
they files, directories or links, and there is no temporary file among them.

* `Files.Replaced`, `Made` — trees with one new file.
* `Action.Gives`, `Session.Seals` — what a step gives, and the bytes that a text is wrapped in.
* `Task.FilesAfter`, `CacheAfter` — what each task leaves.
* `Storage.save_effect`, `Session.modify_effect`, `encrypt_effect` — what is wrapped, and where it
  is put.
* `Session.remember_effect`, `forget_effect` — what an agent is told.
* `successful_task_touches_its_target` — what holds of every task.
-/

variable {σ α ε : Type}

/-! ### One entry -/

namespace Files

/-- Is there a file for its owner's eyes only where a written path says, in place of a file, a link
    or nothing, and is everything else what it was?  A link is not followed. -/
def Replaced (files : Files) (written : String) (data : Bytes) (next : Files) : Prop :=
  ∃ slot, files.slot written .resourceBusy = .ok slot ∧
    files.entry? slot.path ≠ some .directory ∧ files.Differs slot.path (.file data 0o600) next

/-- Is there a file where a written path leads, in place of nothing, and is everything else what it
    was? -/
def Made (files : Files) (written : String) (data : Bytes) (next : Files) : Prop :=
  ∃ path, files.find .create written = .ok (.vacant path) ∧ files.entry? path = none ∧
    files.Differs path (.file data 0o644) next

/-- A file that is put at a target is there in place of what was there. -/
theorem IsTarget.replaced {files : Files} {written : String} {slot : Slot}
    (h : files.IsTarget written slot) (data : Bytes) :
    files.Replaced written data (files.insert slot.path (.file data 0o600)) :=
  ⟨slot, h.named, h.free, files.differs_insert h.path_ne_nil _⟩

/-- A file that is made is there where nothing was. -/
theorem made_of_create {files next : Files} {written : String} {data : Bytes}
    (h : files.create written data = .ok next) : files.Made written data next := by
  obtain ⟨path, hfind, rfl⟩ := create_eq_ok.mp h
  obtain ⟨-, hne, hentry⟩ := look_of_vacant hfind
  exact ⟨path, hfind, hentry, files.differs_insert hne _⟩

end Files

namespace Storage

/-- What it takes to replace a file. -/
theorem replaced_of_replace {path : String} {data : Bytes} {storage next : Storage}
    (h : (replace path data).run storage = (.ok (), next)) :
    storage.files.Replaced path data next.files := by
  rcases replace_cases path data storage with ⟨fault, hreplace⟩ | ⟨slot, htarget, hreplace⟩
  · rw [hreplace] at h
    cases (Prod.mk.inj h).1
  · rw [hreplace] at h
    rw [← (Prod.mk.inj h).2]
    exact htarget.replaced data

/-- A container that is stored is wrapped, and what it is wrapped in is put at its location. -/
theorem save_effect {codec : Codec} {location password : String} {container : Container}
    {storage next : Storage}
    (h : (save codec location password container).run storage = (.ok (), next)) :
    ∃ stored, (codec.encrypt (Bytes.ofText password) container.toText container.derivation).run
        storage.entropy = (.ok stored, next.entropy) ∧
      storage.files.Replaced location stored next.files := by
  unfold save at h
  obtain ⟨stored, drawn, hencrypt, hreplace⟩ := run_bind_eq_ok.mp h
  obtain ⟨entropy, hwrap, rfl⟩ := encrypt_eq_ok.mp (run_adapt_eq_ok.mp hencrypt)
  -- The file is written without randomness.
  have hentropy : entropy = next.entropy := congrArg (·.2.entropy) hreplace
  have hreplaced := replaced_of_replace hreplace
  rw [hentropy] at hwrap
  exact ⟨stored, hwrap, hreplaced⟩

end Storage

/-! ### Steps -/

/-- Are two worlds the same but for the terminal? -/
def World.Asked (world next : World σ) : Prop := ∃ console, next = { world with console }

namespace Action

/-- Does a step give this result? -/
def Gives (action : Action σ α) (world : World σ) (result : α) : Prop :=
  (action.run world).1 = .ok result

/-- A step on the stored files that succeeds. -/
theorem onStorage_eq_ok {cause : ε → Cause} {step : ExceptT ε (StateM Storage) α}
    {world next : World σ} {result : α} :
    (onStorage cause step).run world = (.ok result, next) ↔
      ∃ storage, step.run world.toStorage = (.ok result, storage) ∧
        next = { world with toStorage := storage } := by
  rw [run_onStorage, Prod.mk.injEq, mapError_eq_ok]
  constructor
  · rintro ⟨hresult, rfl⟩
    exact ⟨_, Prod.ext hresult rfl, rfl⟩
  · rintro ⟨storage, hstep, rfl⟩
    rw [hstep]
    exact ⟨rfl, rfl⟩

/-- A step whose outcome is known does nothing. -/
theorem eq_of_attempt {text : String} {cause : ε → Cause} {outcome : Except ε α} {result : α}
    {world next : World σ}
    (h : (within text (attempt cause outcome) : Action σ α).run world = (.ok result, next)) :
    outcome = .ok result ∧ next = world :=
  run_attempt_eq_ok.mp (run_within_eq_ok.mp h)

/-- What has been asked for at the terminal. -/
theorem newPassword_effect {world next : World σ} {password : String}
    (h : newPassword.run world = (.ok password, next)) :
    newPassword.Gives world password ∧ world.Asked next := by
  obtain ⟨outcome, console, hrun⟩ := newPassword_frame world
  refine ⟨congrArg Prod.fst h, console, ?_⟩
  rw [hrun] at h
  exact (Prod.mk.inj h).2.symm

end Action

namespace Session

open Lockbox.Action

/-- Is this what comes of wrapping a text, with the randomness that there is? -/
def Seals (session : Session σ) (entropy : Entropy) (password : String) (text : Bytes)
    (d : Derivation) (stored : Bytes) : Prop :=
  ((session.codec.encrypt (Bytes.ofText password) text d).run entropy).1 = .ok stored

/-- Is this what comes of wrapping a container? -/
def SealsContainer (session : Session σ) (entropy : Entropy) (password : String)
    (container : Container) (stored : Bytes) : Prop :=
  session.Seals entropy password container.toText container.derivation stored

end Session

/-! ### Tasks -/

open Lockbox.Action

/-- Does this password open the container at a location?  It is the one that the agent gives, or
    that is typed. -/
def Session.Opens (session : Session σ) (world : World σ) (location : String)
    (container : Container) (password : String) : Prop :=
  (session.unlock location).Gives world (container, password)

/-- What a changed container leaves: it is wrapped again under the password that has opened it, and
    replaces what was at its location. -/
def Session.Rewrites (session : Session σ) (world : World σ) (location : String)
    (edit : Container → Except ContainerError Container) (next : Files) : Prop :=
  ∃ container password changed stored, session.Opens world location container password ∧
    edit container = .ok changed ∧
    session.SealsContainer world.entropy password changed stored ∧
    world.files.Replaced location stored next

/-- The files after a task that has succeeded. -/
def Task.FilesAfter (session : Session σ) (vault : Vault) (world : World σ) (next : Files) :
    Task → Prop
  | init location d => ∃ password stored, newPassword.Gives world password ∧
      session.SealsContainer world.entropy password (.empty d) stored ∧
      world.files.Replaced location stored next
  | put location name valueFile => ∃ text, world.files.readText valueFile = .ok text ∧
      session.Rewrites world location (fun container => .ok (container.upsert name text).2) next
  | delete location name => session.Rewrites world location (·.delete name) next
  | rename location name newName => session.Rewrites world location (·.rename name newName) next
  | encrypt input (some output) d => ∃ text password stored,
      world.files.read input = .ok text ∧ newPassword.Gives world password ∧
      session.Seals world.entropy password text d stored ∧
      world.files.Replaced output stored next
  | decrypt input (some output) => ∃ stored password text d,
      world.files.read input = .ok stored ∧
      (Action.password session.agent input).Gives world password ∧
      session.codec.decrypt (Bytes.ofText password) stored = .ok (text, d) ∧
      world.files.Replaced output text next
  | obfuscate user => ∃ password c, newPassword.Gives world password ∧ vault.cryptor = .ok c ∧
      world.files.Made vault.path (Bytes.ofText (Vault.written c user password)) next
  | list _ | get _ _ | encrypt _ none _ | decrypt _ none | remember _ | forget _ | variableNames =>
    next = world.files

/-- The passwords that an agent keeps after a task that has succeeded. -/
def Task.CacheAfter (world : World Cache) (next : Cache) : Task → Prop
  | remember location => ∃ name password,
      Location.fingerprint world.files.workingDirectory location = .ok name ∧
      (world.console.ask Question.password).1 = .ok password ∧
      next = world.store.insert name password
  | forget location => ∃ name,
      Location.fingerprint world.files.workingDirectory location = .ok name ∧
      next = world.store.erase name
  | _ => next = world.store

/-! ### Single tasks -/

section

variable {session : Session σ} {world next : World σ} {location : String}

/-- Opening a container changes neither the files nor the randomness. -/
theorem Session.storage_of_unlock {opened : Container × String}
    (h : (session.unlock location).run world = (.ok opened, next)) :
    next.toStorage = world.toStorage := by
  have hkept : Preserves (fun other : World σ => other.toStorage = world.toStorage)
      (session.unlock location) :=
    Session.preserves_opening (fun _ _ h => h) (fun _ _ h => h) location
  have hnext := hkept world rfl
  rwa [h] at hnext

/-- A container is made where a free path leads, wrapped under the password typed. -/
theorem Session.init_effect {d : Derivation}
    (h : (session.init location d).run world = (.ok (), next)) :
    world.files.IsFree location ∧ ∃ password stored, newPassword.Gives world password ∧
      (session.codec.encrypt (Bytes.ofText password) (Container.empty d).toText d).run
        world.entropy = (.ok stored, next.entropy) ∧
      world.files.Replaced location stored next.files := by
  unfold init at h
  obtain ⟨_, checked, hcheck, hlook⟩ := run_bind_eq_ok.mp h
  obtain ⟨-, rfl⟩ := run_attempt_eq_ok.mp hcheck
  rw [run_bind_of_ok (run_files checked)] at hlook
  obtain ⟨found, looked, hexists, hmake⟩ := run_bind_eq_ok.mp hlook
  obtain ⟨hfree, rfl⟩ := run_attempt_eq_ok.mp hexists
  cases found with
  | true => cases (Prod.mk.inj hmake).1
  | false =>
    obtain ⟨password, typed, hpassword, hstore⟩ := run_bind_eq_ok.mp hmake
    obtain ⟨hgives, console, rfl⟩ := newPassword_effect hpassword
    obtain ⟨storage, hsave, rfl⟩ := onStorage_eq_ok.mp hstore
    obtain ⟨stored, hencrypt, hreplaced⟩ := Storage.save_effect hsave
    exact ⟨mapError_eq_ok.mp hfree, password, stored, hgives, hencrypt, hreplaced⟩

/-- Credentials are masked with the secret, and stored where nothing is. -/
theorem Session.obfuscate_effect {vault : Vault} {user : String}
    (h : (obfuscate vault user).run world = (.ok (), next)) :
    ∃ password c, newPassword.Gives world password ∧ vault.cryptor = .ok c ∧
      world.files.Made vault.path (Bytes.ofText (Vault.written c user password)) next.files := by
  obtain ⟨password, typed, hpassword, hstore⟩ := run_bind_eq_ok.mp h
  obtain ⟨hgives, console, rfl⟩ := newPassword_effect hpassword
  obtain ⟨_, stored, hmade, hrest⟩ := run_bind_eq_ok.mp hstore
  rw [Refusals.disk_nothing, run_storing] at hmade
  cases hobfuscate : vault.obfuscate user password world.files with
  | error error =>
    rw [hobfuscate] at hmade
    cases (Prod.mk.inj hmade).1
  | ok changed =>
    rw [hobfuscate] at hmade
    obtain ⟨c, hcryptor, -, hcreate⟩ := Vault.obfuscate_eq_ok.mp hobfuscate
    rw [← (Prod.mk.inj hrest).2, ← (Prod.mk.inj hmade).2]
    exact ⟨password, c, hgives, hcryptor, Files.made_of_create hcreate⟩

/-- A container that is changed is wrapped anew under the password that has opened it. -/
theorem Session.modify_effect {edit : Container → Except ContainerError (α × Container)}
    {result : α} (h : (session.modify location edit).run world = (.ok result, next)) :
    ∃ container password changed stored, session.Opens world location container password ∧
      edit container = .ok (result, changed) ∧
      (session.codec.encrypt (Bytes.ofText password) changed.toText changed.derivation).run
        world.entropy = (.ok stored, next.entropy) ∧
      world.files.Replaced location stored next.files := by
  unfold modify at h
  obtain ⟨⟨container, password⟩, asked, hunlock, hchange⟩ := run_bind_eq_ok.mp h
  obtain ⟨⟨told, changed⟩, edited, hattempt, hkeep⟩ := run_bind_eq_ok.mp hchange
  obtain ⟨hedit, rfl⟩ := run_attempt_eq_ok.mp hattempt
  obtain ⟨_, saved, hstore, hresult⟩ := run_bind_eq_ok.mp hkeep
  obtain ⟨storage, hsave, rfl⟩ := onStorage_eq_ok.mp (run_within_eq_ok.mp hstore)
  obtain ⟨stored, hencrypt, hreplaced⟩ := Storage.save_effect hsave
  rw [storage_of_unlock hunlock] at hencrypt hreplaced
  obtain ⟨htold, rfl⟩ := Prod.mk.inj hresult
  obtain rfl := Except.ok.inj htold
  exact ⟨container, password, changed, stored, congrArg Prod.fst hunlock, hedit, hencrypt,
    hreplaced⟩

/-- A container that is changed, where there is nothing to tell. -/
theorem Session.edit_effect (edit : Container → Except ContainerError Container)
    (h : (session.modify location fun container => return ((), ← edit container)).run world =
      (.ok (), next)) :
    ∃ container password changed stored, session.Opens world location container password ∧
      edit container = .ok changed ∧
      (session.codec.encrypt (Bytes.ofText password) changed.toText changed.derivation).run
        world.entropy = (.ok stored, next.entropy) ∧
      world.files.Replaced location stored next.files := by
  obtain ⟨container, password, changed, stored, hopens, hedit, hrest⟩ := modify_effect h
  obtain ⟨made, hmade, hpair⟩ := bind_eq_ok.mp hedit
  obtain ⟨-, rfl⟩ := Prod.mk.inj (Except.ok.inj hpair)
  exact ⟨container, password, made, stored, hopens, hmade, hrest⟩

/-- A text that is put into a container has been read before. -/
theorem Session.put_effect {name valueFile : String}
    (h : (session.put location name valueFile).run world = (.ok (), next)) :
    ∃ text container password stored, world.files.readText valueFile = .ok text ∧
      session.Opens world location container password ∧
      (session.codec.encrypt (Bytes.ofText password) (container.upsert name text).2.toText
        container.derivation).run world.entropy = (.ok stored, next.entropy) ∧
      world.files.Replaced location stored next.files := by
  rw [put, run_bind_of_ok (run_files world)] at h
  obtain ⟨text, read, hread, hput⟩ := run_bind_eq_ok.mp h
  obtain ⟨htext, rfl⟩ := eq_of_attempt hread
  obtain ⟨replaced, changed, hmodify, hemit⟩ := run_bind_eq_ok.mp hput
  obtain ⟨container, password, made, stored, hopens, hedit, hrest⟩ := modify_effect hmodify
  obtain ⟨-, rfl⟩ := Prod.mk.inj (Except.ok.inj hedit)
  obtain ⟨-, rfl⟩ := Prod.mk.inj hemit
  exact ⟨text, container, password, stored, htext, hopens, hrest⟩

/-- Has an envelope been put where it should go: into a file, or on a line of the output? -/
def World.Puts (world next : World σ) (stored : Bytes) : Option String → Prop
  | some path => world.files.Replaced path stored next.files
  | none => next.files = world.files ∧ next.output = world.output ++ (stored ++ [10])

/-- A file that is encrypted is wrapped under the password typed, and put where it should go. -/
theorem Session.encrypt_effect {input : String} {output : Option String} {d : Derivation}
    (h : (session.encrypt input output d).run world = (.ok (), next)) :
    ∃ text password stored, world.files.read input = .ok text ∧
      newPassword.Gives world password ∧
      (session.codec.encrypt (Bytes.ofText password) text d).run world.entropy =
        (.ok stored, next.entropy) ∧
      world.Puts next stored output := by
  unfold encrypt at h
  rw [run_bind_of_ok (run_files world)] at h
  obtain ⟨text, read, hread, hwrap⟩ := run_bind_eq_ok.mp h
  obtain ⟨htext, rfl⟩ := eq_of_attempt hread
  obtain ⟨password, typed, hpassword, hrest⟩ := run_bind_eq_ok.mp hwrap
  obtain ⟨hgives, console, rfl⟩ := newPassword_effect hpassword
  obtain ⟨stored, drawn, hencrypt, hwrite⟩ := run_bind_eq_ok.mp hrest
  obtain ⟨storage, hstored, rfl⟩ := onStorage_eq_ok.mp (run_within_eq_ok.mp hencrypt)
  obtain ⟨entropy, hwrapped, rfl⟩ := Storage.encrypt_eq_ok.mp hstored
  refine ⟨text, password, stored, htext, hgives, ?_⟩
  cases output with
  | some path =>
    obtain ⟨last, hreplace, rfl⟩ := onStorage_eq_ok.mp hwrite
    have hentropy : entropy = last.entropy := congrArg (·.2.entropy) hreplace
    have hreplaced := Storage.replaced_of_replace hreplace
    rw [hentropy] at hwrapped
    exact ⟨hwrapped, hreplaced⟩
  | none =>
    obtain ⟨-, rfl⟩ := Prod.mk.inj hwrite
    exact ⟨hwrapped, rfl, rfl⟩

end

section

variable {session : Session Cache} {world next : World Cache} {location : String}

variable (hagent : session.agent.Atomic)
include hagent

/-- An agent that is asked for a password does not change, so nothing but the terminal does. -/
theorem preserves_asked_password (start : World Cache) (location : String) :
    Preserves start.Asked (password session.agent location) :=
  preserves_password_of_atomic hagent
    (fun _ console ⟨_, h⟩ => ⟨console, by rw [h]⟩) location

/-- A password that is got. -/
theorem password_effect {password : String}
    (h : (Action.password session.agent location).run world = (.ok password, next)) :
    (Action.password session.agent location).Gives world password ∧ world.Asked next := by
  have hasked := preserves_asked_password hagent world location world ⟨world.console, rfl⟩
  rw [h] at hasked
  exact ⟨congrArg Prod.fst h, hasked⟩

/-- A container that is opened. -/
theorem Session.unlock_effect {opened : Container × String}
    (h : (session.unlock location).run world = (.ok opened, next)) :
    session.Opens world location opened.1 opened.2 ∧ world.Asked next := by
  have hasked := Session.preserves_unlock location (preserves_asked_password hagent world location)
    .nothing world ⟨world.console, rfl⟩
  rw [h] at hasked
  exact ⟨congrArg Prod.fst h, hasked⟩

/-- A password that is remembered. -/
theorem Session.remember_effect
    (h : (session.remember location).run world = (.ok (), next)) :
    next.files = world.files ∧ (Task.remember location).CacheAfter world next.store := by
  rcases session.remember_cases location world with
    ⟨failure, console, hfailed⟩ | ⟨name, password, container, console, -, hname, hask, -, hgive⟩
  · rw [hfailed] at h
    cases (Prod.mk.inj h).1
  · rw [hgive, run_give] at h
    rcases hagent.set name password world.store with hset | ⟨error, hset⟩
    · rw [hset] at h
      rw [← (Prod.mk.inj h).2]
      exact ⟨rfl, name, password, hname, congrArg Prod.fst hask, rfl⟩
    · rw [hset] at h
      cases (Prod.mk.inj h).1

/-- A password that is forgotten. -/
theorem Session.forget_effect (h : (session.forget location).run world = (.ok (), next)) :
    next.files = world.files ∧ (Task.forget location).CacheAfter world next.store := by
  rcases hname : Location.fingerprint world.files.workingDirectory location with fault | name
  · rw [session.run_forget_of_error world hname] at h
    cases (Prod.mk.inj h).1
  · rw [session.run_forget world hname] at h
    rcases hagent.reset name world.store with hreset | ⟨error, hreset⟩
    · rw [hreset] at h
      rw [← (Prod.mk.inj h).2]
      exact ⟨rfl, name, hname, rfl⟩
    · rw [hreset] at h
      cases (Prod.mk.inj h).1

/-- What each task leaves of the files. -/
theorem Task.files_effect (vault : Vault) {task : Task}
    (h : (task.run session vault).run world = (.ok (), next)) :
    task.FilesAfter session vault world next.files := by
  cases task with
  | init location d =>
    obtain ⟨-, password, stored, hgives, hencrypt, hreplaced⟩ := Session.init_effect h
    exact ⟨password, stored, hgives, congrArg Prod.fst hencrypt, hreplaced⟩
  | list location =>
    obtain ⟨opened, asked, hunlock, hemit⟩ := run_bind_eq_ok.mp h
    obtain ⟨-, console, rfl⟩ := Session.unlock_effect hagent hunlock
    rw [← (Prod.mk.inj hemit).2]
    rfl
  | get location name =>
    obtain ⟨opened, asked, hunlock, hshow⟩ := run_bind_eq_ok.mp h
    obtain ⟨-, console, rfl⟩ := Session.unlock_effect hagent hunlock
    obtain ⟨text, found, hget, hemit⟩ := run_bind_eq_ok.mp hshow
    obtain ⟨-, rfl⟩ := run_attempt_eq_ok.mp hget
    rw [← (Prod.mk.inj hemit).2]
    rfl
  | put location name valueFile =>
    obtain ⟨text, container, password, stored, htext, hopens, hencrypt, hreplaced⟩ :=
      Session.put_effect h
    exact ⟨text, htext, container, password, _, stored, hopens, rfl, congrArg Prod.fst hencrypt,
      hreplaced⟩
  | delete location name =>
    obtain ⟨container, password, changed, stored, hopens, hedit, hencrypt, hreplaced⟩ :=
      Session.edit_effect (·.delete name) h
    exact ⟨container, password, changed, stored, hopens, hedit, congrArg Prod.fst hencrypt,
      hreplaced⟩
  | rename location name newName =>
    obtain ⟨container, password, changed, stored, hopens, hedit, hencrypt, hreplaced⟩ :=
      Session.edit_effect (·.rename name newName) h
    exact ⟨container, password, changed, stored, hopens, hedit, congrArg Prod.fst hencrypt,
      hreplaced⟩
  | encrypt input output d =>
    obtain ⟨text, password, stored, htext, hgives, hencrypt, hputs⟩ := Session.encrypt_effect h
    cases output with
    | some path => exact ⟨text, password, stored, htext, hgives, congrArg Prod.fst hencrypt, hputs⟩
    | none => exact hputs.1
  | decrypt input output =>
    have hrun := h
    rw [Task.run, Session.decrypt, run_bind_of_ok (run_files world)] at hrun
    obtain ⟨stored, read, hread, hopen⟩ := run_bind_eq_ok.mp hrun
    obtain ⟨hstored, rfl⟩ := eq_of_attempt hread
    obtain ⟨password, asked, hpassword, hrest⟩ := run_bind_eq_ok.mp hopen
    obtain ⟨hgives, console, rfl⟩ := password_effect hagent hpassword
    obtain ⟨⟨text, d⟩, opened, hdecrypt, hwrite⟩ := run_bind_eq_ok.mp hrest
    obtain ⟨htext, rfl⟩ := eq_of_attempt hdecrypt
    cases output with
    | some path =>
      obtain ⟨last, hreplace, rfl⟩ := onStorage_eq_ok.mp hwrite
      exact ⟨stored, password, text, d, hstored, hgives, htext,
        Storage.replaced_of_replace hreplace⟩
    | none =>
      rw [← (Prod.mk.inj hwrite).2]
      rfl
  | remember location => exact (Session.remember_effect hagent h).1
  | forget location => exact (Session.forget_effect hagent h).1
  | obfuscate user => exact Session.obfuscate_effect h
  | variableNames =>
    rw [← (Prod.mk.inj h).2]
    rfl

/-- What each task leaves of the cache. -/
theorem Task.cache_effect (vault : Vault) {task : Task}
    (h : (task.run session vault).run world = (.ok (), next)) :
    task.CacheAfter world next.store := by
  by_cases hasks : task.AsksAgent
  · cases task with
    | remember location => exact (Session.remember_effect hagent h).2
    | forget location => exact (Session.forget_effect hagent h).2
    | _ => exact absurd hasks id
  · have hstore : next.store = world.store := by
      have hkept := Task.preserves_store hagent vault hasks world rfl
      rw [h] at hkept
      exact hkept
    cases task with
    | remember location => exact absurd trivial hasks
    | forget location => exact absurd trivial hasks
    | _ => exact hstore

end

/-- **A task that succeeds touches nothing but its target.**  Whatever the files are, links and
    directories among them, whatever the cache, the codec and the answers at the terminal: the files
    are what `Task.FilesAfter` says and the cache is what `Task.CacheAfter` says. -/
theorem successful_task_touches_its_target {session : Session Cache}
    (hagent : session.agent.IsAgent) (vault : Vault) (task : Task) {world next : World Cache}
    (h : (task.run session vault).run world = (.ok (), next)) :
    task.FilesAfter session vault world next.files ∧ task.CacheAfter world next.store :=
  ⟨Task.files_effect hagent.atomic vault h, Task.cache_effect hagent.atomic vault h⟩

/-- A file that is encrypted onto a link that leads to it. -/
theorem encrypted_onto_link :
    let session : Session Cache := { codec := .ofSuite .chaCha20Poly1305, agent := .cache }
    let vault : Vault := { secretName := "S", secret := none, path := "r" }
    let task := Task.encrypt "t" (some "l") .scrypt
    let files := (({} : Files).insert ["t"] (.file [1] 0o644)).insert ["l"] (.link "t")
    let world : World Cache :=
      { files, entropy := ⟨fun _ => 0, 0⟩, store := ∅
        console := { answers := [some "p", some "p"] } }
    ∃ next, (task.run session vault).run world = (.ok (), next) ∧
      task.FilesAfter session vault world next.files ∧ next.store = ∅ ∧
      next.files.entry? ["t"] = some (.file [1] 0o644) ∧
      ∃ stored, next.files.entry? ["l"] = some (.file stored 0o600) := by
  intro session vault task files world
  have hworks : session.codec.Works := Codec.works_ofSuite .chaCha20Poly1305
  have hread : (attempt .fault (files.read "t") : Action Cache Bytes).run world =
      (.ok [1], world) := run_attempt_eq_ok.mpr ⟨by decide, rfl⟩
  obtain ⟨typed, hfiles, hpassword⟩ : ∃ typed : World Cache, typed.files = files ∧
      newPassword.run world = (.ok "p", typed) := ⟨_, rfl, rfl⟩
  obtain ⟨stored, entropy, hencrypt, -⟩ := hworks (Bytes.ofText "p") [1] .scrypt typed.entropy
  have hsealed : (onStorage .envelope (Storage.encrypt session.codec "p" [1] .scrypt) :
      Action Cache Bytes).run typed = (.ok stored, { typed with entropy }) := by
    rw [run_onStorage, Storage.run_encrypt, hencrypt]
    rfl
  have htarget : files.IsTarget "l" ⟨[], "l", false⟩ :=
    ⟨by decide, rfl, by decide, by decide, [".tmp100000"], by decide⟩
  have hrun : ∃ next, (task.run session vault).run world = (.ok (), next) := by
    refine ⟨{ typed with files := files.insert ["l"] (.file stored 0o600), entropy }, ?_⟩
    show (session.encrypt "t" (some "l") .scrypt).run world = _
    unfold Session.encrypt
    rw [run_bind_of_ok (run_files world), Refusals.disk_nothing, Disk.look_sound,
      run_bind_of_ok (run_within_eq_ok.mpr hread),
      run_bind_of_ok hpassword, run_bind_of_ok (run_within_eq_ok.mpr hsealed)]
    dsimp only
    rw [run_onStorage, Storage.run_replace]
    dsimp only
    rw [hfiles, Files.run_writePrivate htarget]
    rfl
  obtain ⟨next, hdone⟩ := hrun
  obtain ⟨hafter, hcache⟩ := successful_task_touches_its_target (.inl rfl) vault task hdone
  refine ⟨next, hdone, hafter, hcache, ?_⟩
  obtain ⟨text, password, sealed, -, -, -, slot, hslot, -, hdiffers⟩ := hafter
  have hnamed := hslot.symm.trans htarget.named
  rw [Except.ok.inj hnamed] at hdiffers
  exact ⟨(hdiffers.elsewhere ["t"] (by decide)).trans (by decide), sealed, hdiffers.here⟩

end Lockbox
