import Lockbox.Proofs.Session.Legacy

namespace Lockbox

/-!
# Creating

Two tasks create something: one makes a container, the other stores credentials.  Where a name is
taken, they fail and change nothing, with one exception: a container is put in the place of a link
that leads nowhere.  What has been created stays there whatever tasks come next, so it can be
created once more only after somebody else has taken it away.

* `Task.creates?`, `Task.creates_effect` — where a task creates something, and what that takes.
* `Task.IsRefused`, `ReplacesLink`, `creates_where_taken` — what comes of it under a name that is
  taken.
* `init_of_isFree`, `Session.obfuscate_of_vacant` — where something is created.
* `dangling_link_replaced` — the exception.
* `Event`, `World.afterwards` — tasks, and changes that others make in between.
* `Visit.keeps`, `ended_of_not` — what lasts through one task, and through any number of them.
* `creation_spares_all_but_dangling_links` — what holds of all of them.
-/

variable {σ : Type}

open Lockbox.Action

/-! ### Tasks that create something -/

namespace Task

/-- The written path under which a task creates something. -/
def creates? (vault : Vault) : Task → Option String
  | init location _ => some location
  | obfuscate _ => some vault.path
  | list _ | get _ _ | put _ _ _ | delete _ _ | rename _ _ _ | encrypt _ _ _ | decrypt _ _
  | remember _ | forget _ | variableNames => none

variable {session : Session σ} {vault : Vault} {task : Task} {written : String}

/-- A task that creates something changes nothing if it fails. -/
theorem same_of_creates_error {world next : World σ} {failure : Failure}
    (htask : task.creates? vault = some written)
    (h : (task.run session vault).run world = (.error failure, next)) : world.Same next := by
  cases task with
  | init location d =>
    have hinit : Undoes .sound (some location) none (session.init location d) :=
      undoes_init session location d
    exact (hinit world next failure h).same
  | obfuscate user =>
    have hobfuscate : Accounts .nothing none (some vault.path)
      (Session.obfuscate vault user : Action σ Unit) _ := accounts_obfuscate vault user
    exact hobfuscate.same h
  | list _ | get _ _ | put _ _ _ | delete _ _ | rename _ _ _ | encrypt _ _ _ | decrypt _ _
  | remember _ | forget _ | variableNames => cases htask

variable {world next : World σ}

/-- **A task creates something where a free path leads**, and puts a file under the name. -/
theorem creates_effect (htask : task.creates? vault = some written)
    (h : (task.run session vault).run world = (.ok (), next)) :
    world.files.IsFree written ∧ ∃ slot data mode,
      world.files.slot written .resourceBusy = .ok slot ∧
      world.files.entry? slot.path ≠ some .directory ∧
      world.files.Differs slot.path (.file data mode) next.files := by
  cases task with
  | init location d =>
    obtain rfl := Option.some.inj htask
    obtain ⟨hfree, _, stored, -, -, slot, hslot, hold, hdiffers⟩ := Session.init_effect h
    exact ⟨hfree, slot, stored, 0o600, hslot, hold, hdiffers⟩
  | obfuscate user =>
    obtain rfl := Option.some.inj htask
    obtain ⟨_, _, -, -, path, hvacant, hnone, hdiffers⟩ := Session.obfuscate_effect h
    obtain ⟨slot, hslot, rfl⟩ := Files.slot_of_vacant hvacant .resourceBusy
    refine ⟨Files.isFree_of_vacant hvacant, slot, _, 0o644, hslot, ?_, hdiffers⟩
    rw [hnone]
    exact nofun
  | list _ | get _ _ | put _ _ _ | delete _ _ | rename _ _ _ | encrypt _ _ _ | decrypt _ _
  | remember _ | forget _ | variableNames => cases htask

/-- Does a task fail, and change nothing? -/
def IsRefused (session : Session σ) (vault : Vault) (world : World σ) (task : Task) : Prop :=
  ∃ failure next, (task.run session vault).run world = (.error failure, next) ∧ world.Same next

/-- Does a task put a container in the place of this entry, which is a link that leads nowhere? -/
def ReplacesLink (session : Session σ) (vault : Vault) (world : World σ) (written : String)
    (entry : Entry) (task : Task) : Prop :=
  ∃ d target next stored, task = .init written d ∧ entry = .link target ∧
    world.files.IsFree written ∧ (task.run session vault).run world = (.ok (), next) ∧
    world.files.Replaced written stored next.files

/-- **Under a name that is taken nothing is created**, and nothing is changed, unless a container is
    put in the place of a link that leads nowhere. -/
theorem creates_where_taken {entry : Entry} (htask : task.creates? vault = some written)
    (htaken : world.files.IsTakenBy written entry) :
    task.IsRefused session vault world ∨ task.ReplacesLink session vault world written entry := by
  rcases hrun : (task.run session vault).run world with ⟨failure | _, next⟩
  · exact .inl ⟨failure, next, hrun, same_of_creates_error htask hrun⟩
  · obtain ⟨hfree, slot, _, _, hslot, hold, -⟩ := creates_effect htask hrun
    right
    cases task with
    | init location d =>
      obtain rfl := Option.some.inj htask
      obtain ⟨-, _, stored, -, -, hreplaced⟩ := Session.init_effect hrun
      obtain ⟨target, rfl, -⟩ := htaken.link_of_isFree hfree hslot hold
      exact ⟨d, target, next, stored, rfl, rfl, hfree, hrun, hreplaced⟩
    -- A record is made in one step that follows no link.
    | obfuscate user =>
      obtain rfl := Option.some.inj htask
      obtain ⟨_, _, -, -, path, hvacant, -⟩ := Session.obfuscate_effect hrun
      exact absurd hvacant (htaken.not_vacant path)
    | list _ | get _ _ | put _ _ _ | delete _ _ | rename _ _ _ | encrypt _ _ _ | decrypt _ _
    | remember _ | forget _ | variableNames => cases htask

end Task

/-- What comes of storing credentials once a password has been typed. -/
theorem Session.run_obfuscate {vault : Vault} {user password : String} {world typed : World σ}
    {changed : Files} (hpassword : newPassword.run world = (.ok password, typed))
    (hstored : vault.obfuscate user password typed.files = .ok changed) :
    (obfuscate vault user).run world =
      (.ok (), { typed with
        files := changed
        output := typed.output ++
          (Bytes.ofText s!"Credentials written to {vault.path}" ++ [10]) }) := by
  have hmade := run_storing vault user password typed
  rw [hstored] at hmade
  unfold obfuscate
  rw [run_bind_of_ok hpassword, Refusals.disk_nothing, run_bind_of_ok hmade]
  rfl

/-- Credentials are stored wherever a file can be made. -/
theorem Session.obfuscate_of_vacant {vault : Vault} {c : Cfb8} {user password : String}
    {world typed : World σ} {path : Path} (hcryptor : vault.cryptor = .ok c)
    (hvacant : world.files.find .create vault.path = .ok (.vacant path))
    (hpassword : newPassword.run world = (.ok password, typed)) :
    ∃ next, (obfuscate vault user).run world = (.ok (), next) ∧
      next.files.entry? path =
        some (.file (Bytes.ofText (Vault.written c user password)) 0o644) := by
  obtain ⟨-, console, rfl⟩ := newPassword_effect hpassword
  have hfree : world.files.exists? vault.path = .ok false := Files.isFree_of_vacant hvacant
  let made := world.files.insert path
    (.file (Bytes.ofText (Vault.written c user password)) 0o644)
  have hstored : vault.obfuscate user password world.files = .ok made := Vault.obfuscate_eq_ok.mpr
    ⟨c, hcryptor, by rw [hfree]; exact nofun, Files.create_eq_ok.mpr ⟨path, hvacant, rfl⟩⟩
  exact ⟨_, run_obfuscate hpassword hstored,
    Files.entry?_insert_self (Files.look_of_vacant hvacant).2.1⟩

/-- A container is put under the name of every free path, if there is a place for its file: in the
    place of a link if the name is taken by one. -/
theorem init_of_isFree {session : Session σ} (hworks : session.codec.Works)
    {location password : String} (d : Derivation) {world typed : World σ} {slot : Files.Slot}
    (hcheck : Storage.check location = .ok ()) (hplace : world.files.IsTarget location slot)
    (hfree : world.files.IsFree location)
    (hpassword : newPassword.run world = (.ok password, typed)) :
    ∃ stored next, (session.init location d).run world = (.ok (), next) ∧
      Storage.Sealed session.codec password (.empty d) stored ∧
      next.files.entry? slot.path = some (.file stored 0o600) := by
  obtain ⟨-, console, rfl⟩ := newPassword_effect hpassword
  obtain ⟨stored, entropy, hsealed, hinit⟩ :=
    Session.run_init_of_target hworks d hcheck (mapError_eq_ok.mpr hfree) hpassword hplace
  exact ⟨stored, _, hinit, hsealed, Files.entry?_insert_self hplace.path_ne_nil⟩

/-- **A link that leads nowhere is destroyed**, where a record would not have been written. -/
theorem dangling_link_replaced :
    let session : Session Cache := { codec := .ofSuite .chaCha20Poly1305, agent := .cache }
    let files := ({} : Files).insert ["l"] (.link "t")
    let world : World Cache :=
      { files, entropy := ⟨fun _ => 0, 0⟩, store := ∅
        console := { answers := [some "p", some "p"] } }
    files.IsTakenBy "l" (.link "t") ∧
      ∃ stored next, (session.init "l" .sha256Double).run world = (.ok (), next) ∧
        next.files.entry? ["l"] = some (.file stored 0o600) := by
  intro session files world
  have hworks : session.codec.Works := Codec.works_ofSuite .chaCha20Poly1305
  have hplace : world.files.IsTarget "l" ⟨[], "l", false⟩ :=
    ⟨by decide, rfl, by decide, by decide, [".tmp100000"], by decide⟩
  have hfree : world.files.exists? "l" = .ok false := by decide
  obtain ⟨typed, hpassword⟩ : ∃ typed, newPassword.run world = (.ok "p", typed) := ⟨_, rfl⟩
  obtain ⟨stored, next, hinit, -, hentry⟩ :=
    init_of_isFree hworks .sha256Double rfl hplace hfree hpassword
  exact ⟨.inl ⟨⟨[], "l", false⟩, hplace.named, by decide⟩, stored, next, hinit, hentry⟩

/-! ### Tasks and other changes -/

/-- Something that happens to the stored files. -/
inductive Event (σ : Type)
  /-- A task is carried out. -/
  | own (visit : Visit σ)
  /-- Somebody else puts other files in place of the files as they are. -/
  | foreign (files : Files)

namespace Event

/-- The world after something has happened. -/
def after (world : World σ) : Event σ → World σ
  | own visit => (visit.run world).2
  | foreign files => { world with files }

/-- Is it a task that creates something under a written path, and succeeds? -/
def Creates (written : String) (world : World σ) : Event σ → Prop
  | own visit =>
    visit.task.creates? visit.vault = some written ∧ (visit.run world).1.1 = .ok ()
  | foreign _ => False

end Event

namespace World

/-- The world after some things have happened, one after the other. -/
def afterwards (world : World σ) (events : List (Event σ)) : World σ :=
  events.foldl Event.after world

/-- Has somebody else put an end to what held of the files? -/
def Ended (P : Files → Prop) (world : World σ) (events : List (Event σ)) : Prop :=
  ∃ before files later, events = before ++ .foreign files :: later ∧
    P (world.afterwards before).files ∧ ¬ P files

end World

section

variable {P : Files → Prop} (hputs : ∀ files next, P files → files.PutsFile next → P next)
include hputs

/-- A task keeps what files that are put somewhere do not put an end to. -/
theorem Visit.keeps (visit : Visit σ) {world : World σ} (h : P world.files) :
    P (visit.run world).2.files :=
  Task.preserves (P := fun other : World σ => P other.files) (fun _ _ h => h) (fun _ _ h => h)
    (fun world files h hfiles => hputs world.files files h hfiles) (fun _ _ h => h)
    (fun _ _ _ _ h => h) visit.vault visit.task (visit.start world) h

/-- **What such files do not put an end to lasts until somebody else does.** -/
theorem ended_of_not {world : World σ} {events : List (Event σ)} (h : P world.files)
    (hnot : ¬ P (world.afterwards events).files) : world.Ended P events := by
  -- On what happens; the world is arbitrary, since the first event changes it.
  induction events generalizing world with
  | nil => exact absurd h hnot
  | cons event later ih =>
    by_cases hnext : P (event.after world).files
    · obtain ⟨before, files, rest, rfl, hbefore, hfiles⟩ := ih hnext hnot
      exact ⟨event :: before, files, rest, rfl, hbefore, hfiles⟩
    · cases event with
      | own visit => exact absurd (visit.keeps hputs h) hnext
      | foreign files => exact ⟨[], files, later, rfl, h, hnext⟩

end

/-- What is left where something has been created: the path is not free any more, and a file is
    under its name. -/
theorem Event.Creates.effect {written : String} {world : World σ} {event : Event σ}
    (h : event.Creates written world) :
    world.files.IsFree written ∧ ¬ (event.after world).files.IsFree written ∧
      ∃ slot, world.files.slot written .resourceBusy = .ok slot ∧
        (event.after world).files.IsFile slot.path := by
  cases event with
  | foreign files => exact absurd h id
  | own visit =>
    obtain ⟨hfree, slot, data, mode, hslot, hold, hdiffers⟩ :=
      Task.creates_effect h.1 (Visit.run_of_ok h.2)
    exact ⟨hfree, hdiffers.not_isFree hslot hold, slot, hslot, data, mode, hdiffers.here⟩

/-- **Creating destroys nothing but links that lead nowhere.**  Where a name is taken, in whatever
    way, a task that would create something there fails and changes nothing, or it puts a container
    in the place of a link that leads nowhere.  A container is made under the name of every free
    path, such a link among them, if there is a place for its file, and credentials are stored
    wherever a file can be made.  Where something has been created, and something is created under
    the same written path again, whatever tasks there were in between, somebody else has made the
    path free; and if the path names the same place as before, has taken away the file that was
    there. -/
theorem creation_spares_all_but_dangling_links (written : String) :
    (∀ (session : Session σ) (vault : Vault) (task : Task) (world : World σ) (entry : Entry),
      task.creates? vault = some written → world.files.IsTakenBy written entry →
      task.IsRefused session vault world ∨
        task.ReplacesLink session vault world written entry) ∧
    (∀ (world typed : World σ) (password : String),
      newPassword.run world = (.ok password, typed) →
      (∀ (session : Session σ) (d : Derivation) (slot : Files.Slot), session.codec.Works →
        Storage.check written = .ok () → world.files.IsTarget written slot →
        world.files.IsFree written →
        ∃ stored next, (session.init written d).run world = (.ok (), next) ∧
          Storage.Sealed session.codec password (.empty d) stored ∧
          next.files.entry? slot.path = some (.file stored 0o600)) ∧
      ∀ (vault : Vault) (c : Cfb8) (user : String) (path : Path), vault.path = written →
        vault.cryptor = .ok c → world.files.find .create written = .ok (.vacant path) →
        ∃ next, (Session.obfuscate vault user).run world = (.ok (), next) ∧
          next.files.entry? path =
            some (.file (Bytes.ofText (Vault.written c user password)) 0o644)) ∧
    ∀ (first second : Event σ) (between : List (Event σ)) (world : World σ),
      first.Creates written world →
      second.Creates written ((first.after world).afterwards between) →
      (first.after world).Ended (fun files => ¬ files.IsFree written) between ∧
      ∀ slot, world.files.slot written .resourceBusy = .ok slot →
        ((first.after world).afterwards between).files.slot written .resourceBusy = .ok slot →
        (first.after world).Ended (fun files => files.IsFile slot.path) between := by
  refine ⟨fun session vault task world entry => Task.creates_where_taken, ?_, ?_⟩
  · intro world typed password hpassword
    constructor
    · intro session d slot hworks hcheck hplace hfree
      exact init_of_isFree hworks d hcheck hplace hfree hpassword
    · rintro vault c user path rfl hcryptor hvacant
      exact Session.obfuscate_of_vacant hcryptor hvacant hpassword
  · intro first second between world hfirst hsecond
    obtain ⟨-, htaken, made, hmade, hfile⟩ := hfirst.effect
    have hfree := hsecond.effect.1
    constructor
    · exact ended_of_not (fun files next hnot hputs hnext => hnot (hputs.isFree hnext)) htaken
        (not_not_intro hfree)
    · intro slot hbefore hafter
      obtain rfl := Except.ok.inj (hmade.symm.trans hbefore)
      exact ended_of_not (fun files next hfile hputs => hputs.isFile hfile) hfile
        fun hstill => Files.not_isFree_of_file hafter hstill hfree

/-- A link that leads nowhere, where credentials are not stored but a container is made; and
    credentials that are stored again once somebody has removed them. -/
theorem credentials_stored_again :
    let session : Session Cache := { codec := .ofSuite .chaCha20Poly1305, agent := .cache }
    let console : Console := { answers := [some "p", some "p"] }
    let world (files : Files) : World Cache :=
      { files, entropy := ⟨fun _ => 0, 0⟩, store := ∅, console }
    let linked := world (Files.insert {} ["r"] (.link "t"))
    let visit : Event Cache :=
      .own { session, vault := Vault.sample, task := .obfuscate "alice", console }
    (Task.obfuscate "alice").IsRefused session Vault.sample linked ∧
      (∃ stored next, (session.init "r" .scrypt).run linked = (.ok (), next) ∧
        next.files.entry? ["r"] = some (.file stored 0o600)) ∧
      visit.Creates "r" (world {}) ∧
      visit.Creates "r" ((visit.after (world {})).afterwards [.foreign {}]) ∧
      (visit.after (world {})).Ended (fun files => files.IsFile ["r"]) [.foreign {}] := by
  intro session console world linked visit
  obtain ⟨htaken, hmade, hagain⟩ := @creation_spares_all_but_dangling_links Cache "r"
  refine ⟨?_, ?_, ?_⟩
  · rcases htaken session Vault.sample (.obfuscate "alice") linked (.link "t") rfl
      (.inl ⟨⟨[], "r", false⟩, by decide, by decide⟩) with
      hrefused | ⟨d, target, next, stored, htask, -⟩
    · exact hrefused
    · cases htask
  · have hplace : linked.files.IsTarget "r" ⟨[], "r", false⟩ :=
      ⟨by decide, rfl, by decide, by decide, [".tmp100000"], by decide⟩
    have hfree : linked.files.exists? "r" = .ok false := by decide
    obtain ⟨stored, next, hinit, -, hentry⟩ := (hmade linked _ "p" rfl).1 session .scrypt _
      (Codec.works_ofSuite .chaCha20Poly1305) rfl hplace hfree
    exact ⟨stored, next, hinit, hentry⟩
  · have hcreates : ∀ other : World Cache, other.files = {} → visit.Creates "r" other := by
      intro other hother
      have hvacant : other.files.find .create "r" = .ok (.vacant ["r"]) := by
        rw [hother]
        decide
      obtain ⟨next, hrun, -⟩ := (hmade { other with console, output := [] } _ "p" rfl).2
        Vault.sample _ "alice" ["r"] rfl Vault.cryptor_sample hvacant
      exact ⟨rfl, congrArg Prod.fst hrun⟩
    have hfirst := hcreates (world {}) rfl
    have hsecond := hcreates ((visit.after (world {})).afterwards [.foreign {}]) rfl
    refine ⟨hfirst, hsecond, ?_⟩
    exact (hagain visit visit [.foreign {}] (world {}) hfirst hsecond).2 ⟨[], "r", false⟩
      (by decide) (by decide)

end Lockbox
