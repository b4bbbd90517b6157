import Lockbox.Proofs.Files.Plain
import Lockbox.Proofs.Session.Steps

namespace Lockbox

/-!
# A container as a map

Seen from outside, a container that has been made is a finite map from names to texts: whatever
commands are given, in whatever order and with whatever salts and nonces, what they print and how
they fail is what the same operations on the map come to, and the stored container is the map.

* `ContainerCommand`, `ContainerCommand.run` — commands on one container.
* `ContainerCommand.onMap` — what they do to a map.
* `Turn` — a command with the terminal and the agent that it finds.
* `Holds` — the runs of commands, each with the map that it leads to.
* `Stored`, `stored_init`, `stored_turn` — what is in the file, and that every step keeps it.
* `container_refines_map` — what every run comes to.
-/

/-! ### Commands -/

/-- A command on the container at a location. -/
inductive ContainerCommand
  | list
  | get (name : String)
  | put (name valueFile : String)
  | delete (name : String)
  | rename (name newName : String)
  deriving DecidableEq, Repr

namespace ContainerCommand

/-- Gives a command. -/
def run {σ : Type} (session : Session σ) (location : String) : ContainerCommand → Action σ Unit
  | list => session.list location
  | get name => session.get location name
  | put name valueFile => session.put location name valueFile
  | delete name => session.delete location name
  | rename name newName => session.rename location name newName

/-- Names in ascending order of their bytes. -/
def ascending (names : List String) : List String :=
  names.mergeSort fun a b => decide (Bytes.ofText a ≤ Bytes.ofText b)

/-- A text and a new line. -/
def line (text : String) : Bytes := Bytes.ofText text ++ [10]

/-- What a command on a map comes to: what it prints or how it fails, and the map after it.  Texts
    to put are read from files. -/
def onMap (files : Files) (texts : Std.ExtTreeMap String String) :
    ContainerCommand → Except Failure Bytes × Std.ExtTreeMap String String
  | list => (.ok ((ascending texts.keys).flatMap line), texts)
  | get name =>
    match texts[name]? with
    | some text => (.ok (line text), texts)
    | none => (.error { cause := .storage (.container (.missing name)) }, texts)
  | put name valueFile =>
    match files.readText valueFile with
    | .ok text =>
      (.ok (line (if name ∈ texts then "Entry replaced" else "Entry added")),
        texts.insert name text)
    | .error fault =>
      (.error { cause := .fault fault
                context := [s!"Unable to load value data from '{valueFile}'"] }, texts)
  | delete name =>
    if name ∈ texts then (.ok [], texts.erase name)
    else (.error { cause := .storage (.container (.missing name)) }, texts)
  | rename name newName =>
    match texts[name]? with
    | none => (.error { cause := .storage (.container (.missing name)) }, texts)
    | some text =>
      if newName ∈ texts then (.error { cause := .storage (.container (.taken newName)) }, texts)
      else (.ok [], (texts.erase name).insert newName text)

/-- Does a command get as far as opening the container?  It does not if there is no text to put. -/
def Opens (files : Files) : ContainerCommand → Prop
  | put _ valueFile => ∃ text, files.readText valueFile = .ok text
  | _ => True

/-- How a command has ended and what it has printed: nothing, if it failed. -/
def ended : Except Failure Bytes → Except Failure Unit × Bytes
  | .ok output => (.ok (), output)
  | .error failure => (.error failure, [])

end ContainerCommand

/-! ### Runs -/

/-- A command with the terminal and the agent that it finds. -/
structure Turn (σ : Type) where
  /-- The command. -/
  command : ContainerCommand
  /-- The terminal. -/
  console : Console
  /-- The state of the agent. -/
  store : σ

namespace Turn

variable {σ : Type}

/-- The world that a command finds, with nothing printed yet. -/
def start (turn : Turn σ) (world : World σ) : World σ :=
  { toStorage := world.toStorage, store := turn.store, console := turn.console, output := [] }

/-- Gives the command: what it printed or how it failed, having printed what it had, and the world
    after it. -/
def run (session : Session σ) (location : String) (turn : Turn σ) (world : World σ) :
    (Except Failure Unit × Bytes) × World σ :=
  let (outcome, next) := (turn.command.run session location).run (turn.start world)
  ((outcome, next.output), next)

/-- Does the command get this password, if it gets as far as opening the container? -/
def Gets (session : Session σ) (location password : String) (turn : Turn σ) (world : World σ) :
    Prop :=
  turn.command.Opens world.files → ∃ next,
    (Action.password session.agent location).run (turn.start world) = (.ok password, next)

end Turn

/-- The worlds that one gets to by making a container under a password, where nothing is in a
    directory that is there, and giving commands that get the same password, each with the map that
    it should hold. -/
inductive Holds {σ : Type} (session : Session σ) (location password : String) (d : Derivation) :
    World σ → Std.ExtTreeMap String String → Prop
  /-- The container has just been made. -/
  | init {world typed next : World σ} {slot : Files.Slot}
      (hslot : world.files.slot location .resourceBusy = .ok slot)
      (hparent : world.files.entry? slot.directory = some .directory)
      (hvacant : world.files.entry? slot.path = none)
      (hpassword : Action.newPassword.run world = (.ok password, typed))
      (hinit : (session.init location d).run world = (.ok (), next)) :
      Holds session location password d next ∅
  /-- A command has been given. -/
  | turn {world : World σ} {texts : Std.ExtTreeMap String String} (turn : Turn σ)
      (h : Holds session location password d world texts)
      (hgets : turn.Gets session location password world) :
      Holds session location password d (turn.run session location world).2
        (turn.command.onMap world.files texts).2

/-! ### What is in the file -/

variable {σ : Type} {session : Session σ} {location password : String} {d : Derivation}

/-- The map opens from the file at the location, and the file can be replaced. -/
def Stored (codec : Codec) (location password : String) (d : Derivation) (files : Files)
    (texts : Std.ExtTreeMap String String) : Prop :=
  Storage.check location = .ok () ∧ ∃ slot stored mode, files.IsTarget location slot ∧
    files.entry? slot.directory = some .directory ∧
    files.entry? slot.path = some (.file stored mode) ∧
    Storage.OpensTo codec password { entries := texts, derivation := d } stored

namespace Stored

variable {codec : Codec} {files : Files} {texts : Std.ExtTreeMap String String}

/-- The container that opens is the map. -/
theorem load (h : Stored codec location password d files texts) :
    Storage.load codec files location password = .ok { entries := texts, derivation := d } := by
  obtain ⟨-, slot, stored, mode, htarget, -, hfile, hopens⟩ := h
  exact hopens.load (htarget.read hfile)

/-- A file that has been put at a target holds the map that is sealed in it. -/
theorem of_insert {slot : Files.Slot} {stored : Bytes} (hcheck : Storage.check location = .ok ())
    (htarget : files.IsTarget location slot)
    (hparent : files.entry? slot.directory = some .directory)
    (hpath : files.IsReplaceable slot.path)
    (hsealed : Storage.Sealed codec password { entries := texts, derivation := d } stored) :
    Stored codec location password d (files.insert slot.path (.file stored 0o600)) texts := by
  -- The directory of the file stays one, since a file is put only where no directory is.
  have hne := hpath.ne hparent (fun _ _ => nofun)
  refine ⟨hcheck, slot, stored, 0o600, htarget.insert hparent hpath stored 0o600, ?_, ?_,
    hsealed.opensTo⟩
  · rw [Files.entry?_insert_of_ne hne, hparent]
  · exact Files.entry?_insert_self hpath.1

/-- Another map can be stored in its place. -/
theorem exists_save (hworks : codec.Works) (h : Stored codec location password d files texts)
    (changed : Std.ExtTreeMap String String) (entropy : Entropy) :
    ∃ storage, (Storage.save codec location password { entries := changed, derivation := d }).run
        { files, entropy } = (.ok (), storage) ∧
      Stored codec location password d storage.files changed := by
  obtain ⟨hcheck, slot, old, mode, htarget, hparent, hfile, -⟩ := h
  obtain ⟨stored, rest, hsealed, hsave⟩ := Storage.save_of_target hworks
    { files, entropy } htarget password { entries := changed, derivation := d }
  have hpath : files.IsReplaceable slot.path := ⟨htarget.path_ne_nil, .inr ⟨old, mode, hfile⟩⟩
  exact ⟨_, hsave, of_insert hcheck htarget hparent hpath hsealed⟩

end Stored

/-- What has been made holds the empty map. -/
theorem stored_init (hworks : session.codec.Works) {world typed next : World σ} {slot : Files.Slot}
    (hslot : world.files.slot location .resourceBusy = .ok slot)
    (hparent : world.files.entry? slot.directory = some .directory)
    (hvacant : world.files.entry? slot.path = none)
    (hpassword : Action.newPassword.run world = (.ok password, typed))
    (hinit : (session.init location d).run world = (.ok (), next)) :
    Stored session.codec location password d next.files ∅ := by
  rcases Session.init_cases hworks location d world with
    ⟨failure, entropy, console, hfails⟩ |
      ⟨chosen, console, target, stored, entropy, hcheck, -, hchosen, htarget, hsealed, hmade⟩
  · rw [hfails] at hinit
    cases (Prod.mk.inj hinit).1
  · rw [hpassword] at hchosen
    obtain rfl := Except.ok.inj (Prod.mk.inj hchosen).1
    -- The place that is vacant is the one that is written to.
    obtain rfl : slot = target := Except.ok.inj (hslot.symm.trans htarget.named)
    have hpath : world.files.IsReplaceable slot.path := ⟨htarget.path_ne_nil, .inl hvacant⟩
    rw [hmade] at hinit
    rw [← (Prod.mk.inj hinit).2]
    exact Stored.of_insert hcheck htarget hparent hpath hsealed

/-! ### Commands on what is in the file -/

namespace Stored

variable {world asked : World σ} {texts : Std.ExtTreeMap String String}

/-- The container is opened, which prints nothing and leaves the files alone. -/
theorem unlock (h : Stored session.codec location password d world.files texts)
    (hpassword : (Action.password session.agent location).run world = (.ok password, asked)) :
    (session.unlock location).run world =
        (.ok ({ entries := texts, derivation := d }, password), asked) ∧
      asked.toStorage = world.toStorage ∧ asked.output = world.output := by
  -- Asking for the password may change the agent and the terminal, and nothing else.
  have hkept := Action.preserves_password
    (P := fun next => next.toStorage = world.toStorage ∧ next.output = world.output)
    session.agent location (fun _ _ h => h) (fun _ _ h => h) world ⟨rfl, rfl⟩
  rw [hpassword] at hkept
  refine ⟨Session.unlock_eq_ok.mpr ⟨h.1, hpassword, ?_⟩, hkept⟩
  rw [congrArg Storage.files hkept.1]
  exact h.load

/-- A change that the map allows is stored. -/
theorem modify {α : Type} (hworks : session.codec.Works)
    (h : Stored session.codec location password d world.files texts)
    (hpassword : (Action.password session.agent location).run world = (.ok password, asked))
    (edit : Container → Except ContainerError (α × Container)) (result : α)
    (changed : Std.ExtTreeMap String String)
    (hedit : edit { entries := texts, derivation := d } =
      .ok (result, { entries := changed, derivation := d })) :
    ∃ next, (session.modify location edit).run world = (.ok result, next) ∧
      next.output = world.output ∧
      Stored session.codec location password d next.files changed := by
  obtain ⟨hunlock, hstorage, houtput⟩ := h.unlock hpassword
  obtain ⟨storage, hsave, hstored⟩ := h.exists_save hworks changed world.entropy
  rw [Session.run_modify_of_ok hunlock hedit]
  refine ⟨{ asked with toStorage := storage }, ?_, houtput, hstored⟩
  -- It is stored from where asking left the randomness, which is where it was.
  rw [← hstorage] at hsave
  exact run_bind_of_ok (Session.run_store hsave)

end Stored

/-! ### Every command -/

/-- A command ends and prints as a reply says, and leaves a map in the file. -/
def Replies (session : Session σ) (location password : String) (d : Derivation)
    (command : Action σ Unit) (world : World σ)
    (reply : Except Failure Bytes × Std.ExtTreeMap String String) : Prop :=
  ∃ next, command.run world = ((ContainerCommand.ended reply.1).1, next) ∧
    next.output = (ContainerCommand.ended reply.1).2 ∧
    Stored session.codec location password d next.files reply.2

section

open Lockbox.Action Lockbox.ContainerCommand

section

variable {world asked : World σ} {texts : Std.ExtTreeMap String String}
  (hworks : session.codec.Works) (h : Stored session.codec location password d world.files texts)
  (hpassword : (Action.password session.agent location).run world = (.ok password, asked))
  (houtput : world.output = [])

/-- The names of a container are those of the map in ascending order. -/
theorem names_eq_ascending (texts : Std.ExtTreeMap String String) (d : Derivation) :
    Container.names { entries := texts, derivation := d } = ascending texts.keys := by
  -- They are sorted already, so sorting them changes nothing.
  have hsorted := (Container.pairwise_names { entries := texts, derivation := d }).imp
    fun {a b} hlt => decide_eq_true (List.le_of_lt hlt)
  exact (List.mergeSort_of_pairwise hsorted).symm

include h hpassword houtput

theorem replies_list : Replies session location password d (session.list location) world
    (list.onMap world.files texts) := by
  obtain ⟨hunlock, hstorage, hsame⟩ := h.unlock hpassword
  refine ⟨{ asked with output := asked.output ++ (ascending texts.keys).flatMap line }, ?_, ?_, ?_⟩
  · unfold Session.list
    rw [run_bind_of_ok hunlock]
    dsimp only
    rw [run_emit, names_eq_ascending]
    rfl
  · show asked.output ++ _ = _
    rw [hsame, houtput]
    rfl
  · show Stored session.codec location password d asked.files texts
    rw [congrArg Storage.files hstorage]
    exact h

theorem replies_get (name : String) : Replies session location password d
    (session.get location name) world ((get name).onMap world.files texts) := by
  obtain ⟨hunlock, hstorage, hsame⟩ := h.unlock hpassword
  have hstored : Stored session.codec location password d asked.files texts := by
    rw [congrArg Storage.files hstorage]
    exact h
  unfold Replies Session.get onMap
  rw [run_bind_of_ok hunlock]
  dsimp only [Container.get]
  cases hname : texts[name]? with
  | none => exact ⟨asked, run_bind_of_error rfl, hsame.trans houtput, hstored⟩
  | some text =>
    refine ⟨{ asked with output := asked.output ++ line text }, ?_, ?_, hstored⟩
    · exact (run_bind_of_ok (a := text) (t := asked) rfl).trans (run_emit _ asked)
    · show asked.output ++ _ = _
      rw [hsame, houtput]
      rfl

include hworks

/-- A text is put only once it has been read. -/
theorem replies_put {text : String} (name : String) {valueFile : String}
    (htext : world.files.readText valueFile = .ok text) :
    Replies session location password d (session.put location name valueFile) world
      ((put name valueFile).onMap world.files texts) := by
  have hsays : (if texts.contains name = true then "Entry replaced" else "Entry added") =
      if name ∈ texts then "Entry replaced" else "Entry added" := by
    simp only [Std.ExtTreeMap.mem_iff_contains]
  have hmap : (put name valueFile).onMap world.files texts =
      (.ok (line (if name ∈ texts then "Entry replaced" else "Entry added")),
        texts.insert name text) := by
    rw [onMap, htext]
  have hread := run_within_attempt s!"Unable to load value data from '{valueFile}'" Cause.fault
    (world.files.readText valueFile) world
  rw [htext] at hread
  obtain ⟨next, hmodify, hsame, hstored⟩ := h.modify hworks hpassword
    (fun container => .ok (container.upsert name text)) (texts.contains name)
    (texts.insert name text) rfl
  rw [hmap, ← hsays]
  generalize hsaid : (if texts.contains name = true then "Entry replaced" else "Entry added") = said
  refine ⟨{ next with output := next.output ++ line said }, ?_, ?_, hstored⟩
  · unfold Session.put
    rw [run_bind_of_ok (run_files world), Refusals.disk_nothing, Disk.look_sound, htext,
      run_bind_of_ok hread, run_bind_of_ok hmodify, hsaid]
    exact run_emit _ next
  · show next.output ++ _ = _
    rw [hsame, houtput]
    rfl

/-- A change that the map allows is silent. -/
theorem replies_of_edit {edit : Container → Except ContainerError (Unit × Container)}
    {changed : Std.ExtTreeMap String String} (hedit : edit { entries := texts, derivation := d } =
      .ok ((), { entries := changed, derivation := d })) :
    Replies session location password d (session.modify location edit) world (.ok [], changed) := by
  obtain ⟨next, hmodify, hsame, hstored⟩ := h.modify hworks hpassword edit () changed hedit
  exact ⟨next, hmodify, hsame.trans houtput, hstored⟩

omit hworks in
/-- A change that the map refuses leaves it as it is. -/
theorem replies_of_refusal {edit : Container → Except ContainerError (Unit × Container)}
    {error : ContainerError} (hedit : edit { entries := texts, derivation := d } = .error error) :
    Replies session location password d (session.modify location edit) world
      (.error { cause := .storage (.container error) }, texts) := by
  obtain ⟨hunlock, hstorage, hsame⟩ := h.unlock hpassword
  refine ⟨asked, Session.run_modify_of_error hunlock hedit, hsame.trans houtput, ?_⟩
  rw [congrArg Storage.files hstorage]
  exact h

theorem replies_delete (name : String) : Replies session location password d
    (session.delete location name) world ((delete name).onMap world.files texts) := by
  unfold Session.delete
  by_cases hname : name ∈ texts
  · rw [show (delete name).onMap world.files texts = (.ok [], texts.erase name) from if_pos hname]
    apply replies_of_edit hworks h hpassword houtput
    rw [Container.delete, if_pos hname]
    rfl
  · rw [show (delete name).onMap world.files texts = (.error _, texts) from if_neg hname]
    apply replies_of_refusal h hpassword houtput
    rw [Container.delete, if_neg hname]
    rfl

theorem replies_rename (name newName : String) : Replies session location password d
    (session.rename location name newName) world
      ((rename name newName).onMap world.files texts) := by
  rw [Session.rename, onMap]
  cases hname : texts[name]? with
  | none =>
    dsimp only
    apply replies_of_refusal h hpassword houtput
    rw [Container.rename, hname]
    rfl
  | some text =>
    by_cases htaken : newName ∈ texts
    · dsimp only
      rw [if_pos htaken]
      apply replies_of_refusal h hpassword houtput
      rw [Container.rename, hname]
      dsimp only
      rw [if_pos htaken]
      rfl
    · dsimp only
      rw [if_neg htaken]
      apply replies_of_edit hworks h hpassword houtput
      rw [Container.rename, hname]
      dsimp only
      rw [if_neg htaken]
      rfl

end

/-- A text that cannot be read is not put. -/
theorem replies_put_of_error {world : World σ} {texts : Std.ExtTreeMap String String}
    (h : Stored session.codec location password d world.files texts) (houtput : world.output = [])
    {fault : Fault} (name : String) {valueFile : String}
    (htext : world.files.readText valueFile = .error fault) :
    Replies session location password d (session.put location name valueFile) world
      ((put name valueFile).onMap world.files texts) := by
  have hmap : (put name valueFile).onMap world.files texts =
      (.error { cause := .fault fault
                context := [s!"Unable to load value data from '{valueFile}'"] }, texts) := by
    rw [onMap, htext]
  have hread := run_within_attempt s!"Unable to load value data from '{valueFile}'" Cause.fault
    (world.files.readText valueFile) world
  rw [htext] at hread
  rw [hmap]
  refine ⟨world, ?_, houtput, h⟩
  unfold Session.put
  rw [run_bind_of_ok (run_files world), Refusals.disk_nothing, Disk.look_sound, htext]
  exact run_bind_of_error hread

/-- **A command on a stored map** replies as the map does and stores what the map becomes. -/
theorem replies_command (world : World σ) {texts : Std.ExtTreeMap String String}
    (hworks : session.codec.Works)
    (h : Stored session.codec location password d world.files texts) (houtput : world.output = [])
    (command : ContainerCommand) (hgets : command.Opens world.files → ∃ asked,
      (Action.password session.agent location).run world = (.ok password, asked)) :
    Replies session location password d (command.run session location) world
      (command.onMap world.files texts) := by
  cases command with
  | list =>
    obtain ⟨asked, hpassword⟩ := hgets trivial
    exact replies_list h hpassword houtput
  | get name =>
    obtain ⟨asked, hpassword⟩ := hgets trivial
    exact replies_get h hpassword houtput name
  | put name valueFile =>
    -- The password is asked for only if there is a text to put.
    cases htext : world.files.readText valueFile with
    | error fault => exact replies_put_of_error h houtput name htext
    | ok text =>
      obtain ⟨asked, hpassword⟩ := hgets ⟨text, htext⟩
      exact replies_put hworks h hpassword houtput name htext
  | delete name =>
    obtain ⟨asked, hpassword⟩ := hgets trivial
    exact replies_delete hworks h hpassword houtput name
  | rename name newName =>
    obtain ⟨asked, hpassword⟩ := hgets trivial
    exact replies_rename hworks h hpassword houtput name newName

end

/-! ### Every run -/

/-- Every turn keeps the map in the file and replies as the map does. -/
theorem stored_turn {world : World σ} {texts : Std.ExtTreeMap String String}
    (hworks : session.codec.Works)
    (h : Stored session.codec location password d world.files texts) (turn : Turn σ)
    (hgets : turn.Gets session location password world) :
    (turn.run session location world).1 =
        ContainerCommand.ended (turn.command.onMap world.files texts).1 ∧
      Stored session.codec location password d (turn.run session location world).2.files
        (turn.command.onMap world.files texts).2 := by
  obtain ⟨next, hrun, houtput, hstored⟩ :=
    replies_command (turn.start world) hworks h rfl turn.command hgets
  unfold Turn.run
  rw [hrun]
  dsimp only
  rw [houtput]
  exact ⟨rfl, hstored⟩

/-- Every run keeps the map in the file. -/
theorem Holds.stored {world : World σ} {texts : Std.ExtTreeMap String String}
    (hworks : session.codec.Works) (h : Holds session location password d world texts) :
    Stored session.codec location password d world.files texts := by
  -- On the run: making the container stores the empty map, and every turn stores what its map
  -- becomes.
  induction h with
  | init hslot hparent hvacant hpassword hinit =>
    exact stored_init hworks hslot hparent hvacant hpassword hinit
  | turn turn _ hgets ih => exact (stored_turn hworks ih turn hgets).2

/-- **A container is a map.** In every world that a run of commands leads to, the container opens
    under the password to the map that the same run leads to, with the key derivation that it was
    made with; and whatever command comes next ends and prints as it does on that map. -/
theorem container_refines_map {suite : Suite} (hcodec : session.codec = .ofSuite suite)
    {world : World σ} {texts : Std.ExtTreeMap String String}
    (h : Holds session location password d world texts) :
    Storage.load session.codec world.files location password =
        .ok { entries := texts, derivation := d } ∧
      ∀ turn : Turn σ, turn.Gets session location password world →
        (turn.run session location world).1 =
          ContainerCommand.ended (turn.command.onMap world.files texts).1 := by
  have hworks : session.codec.Works := by
    rw [hcodec]
    exact Codec.works_ofSuite suite
  have hstored := h.stored hworks
  refine ⟨hstored.load, fun turn hgets => ?_⟩
  exact (stored_turn hworks hstored turn hgets).1

/-- A container that has been made where nobody answers for the agent, with one text put. -/
theorem made_and_put_refines_map :
    let session : Session Unit := { codec := .ofSuite .chaCha20Poly1305, agent := .dead Unit }
    let turn (command : ContainerCommand) : Turn Unit :=
      { command, console := { answers := [some "p"] }, store := () }
    ∃ world : World Unit, Holds session "c" "p" .scrypt world (Std.ExtTreeMap.insert ∅ "k" "t") ∧
      Storage.load session.codec world.files "c" "p" =
        .ok { entries := Std.ExtTreeMap.insert ∅ "k" "t", derivation := .scrypt } ∧
      ((turn (.get "k")).run session "c" world).1 = (.ok (), ContainerCommand.line "t") := by
  intro session turn
  let files := ({} : Files).insert ["v"] (.file (Bytes.ofText "t") 0o644)
  let world : World Unit :=
    { files, entropy := ⟨fun _ => 0, 0⟩, store := ()
      console := { answers := [some "p", some "p"] } }
  have hworks : session.codec.Works := Codec.works_ofSuite .chaCha20Poly1305
  have hplain : files.IsPlain := (Files.isPlain_empty []).insert (by decide) _ _
  have htarget : files.IsTarget "c" ⟨[], "c", false⟩ :=
    ⟨by decide, rfl, by decide, by decide, [".tmp100000"], by decide⟩
  have hexists : Storage.exists? world.files "c" = .ok false := by decide
  have hpassword : Action.newPassword.run world = (.ok "p",
      { world with console := { shown := [Question.newPassword, Question.again] } }) := rfl
  obtain ⟨stored, next, hfiles, hinit⟩ : ∃ stored next,
      next.files = files.insert ["c"] (.file stored 0o600) ∧
        (session.init "c" .scrypt).run world = (.ok (), next) := by
    obtain ⟨stored, entropy, -, hinit⟩ :=
      Session.run_init_of_target hworks .scrypt (by decide) hexists hpassword htarget
    exact ⟨stored, _, rfl, hinit⟩
  have hmade : Holds session "c" "p" .scrypt next ∅ := .init htarget.named rfl rfl hpassword hinit
  -- The file with the text to put is still there once the container has been made.
  have htext : next.files.readText "v" = .ok "t" := by
    have hread := Files.read_insert_file hplain (htarget.isReplaceable hplain)
      (show files.read "v" = .ok (Bytes.ofText "t") by decide) stored 0o600
    rw [if_neg (by decide)] at hread
    rw [hfiles]
    unfold Files.readText
    rw [show (files.insert ["c"] (.file stored 0o600)).read "v" = _ from hread]
    rfl
  have hgets : ∀ command world, (turn command).Gets session "c" "p" world :=
    fun command world _ => ⟨_, Action.run_password_dead "c" _⟩
  have hput := Holds.turn (turn (.put "k" "v")) hmade (hgets _ _)
  have hmap : ((turn (.put "k" "v")).command.onMap next.files ∅).2 =
      Std.ExtTreeMap.insert ∅ "k" "t" := by
    show (ContainerCommand.onMap _ _ (.put "k" "v")).2 = _
    rw [ContainerCommand.onMap, htext]
  rw [hmap] at hput
  obtain ⟨hload, hreplies⟩ := container_refines_map rfl hput
  refine ⟨_, hput, hload, ?_⟩
  rw [hreplies (turn (.get "k")) (hgets _ _)]
  show ContainerCommand.ended (ContainerCommand.onMap _ _ (.get "k")).1 = _
  rw [ContainerCommand.onMap, Std.ExtTreeMap.getElem?_insert_self]
  rfl

end Lockbox
