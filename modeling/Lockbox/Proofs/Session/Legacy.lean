import Lockbox.Proofs.Session.OneFormat
import Lockbox.Proofs.Session.Twins

namespace Lockbox

/-!
# Containers of earlier versions

Earlier versions stored two of the key derivations under other identifiers.  A container with such
an identifier is the container that it would be under the identifier of today: everything that is
done with it ends and prints the same.  The first change stores it under the identifier of today.

* `Derivation.formerId?`, `Envelope.IsFormer` — identifiers and envelopes of earlier versions.
* `Envelope.IsFormer.alike` — such an envelope is decrypted like the one of today.
* `Visit`, `Visit.Apart` — tasks one after the other that do not take a file as it is.
* `Visit.agree_twins`, `replies_of_twins` — what they come to where a container is a former one.
* `Visit.Migrates`, `Visit.migrates` — what changing a former container leaves.
* `former_containers_keep_their_meaning` — what holds of all of them.
-/

/-! ### Identifiers -/

/-- The identifier that earlier versions stored for a derivation, where it was another one. -/
def Derivation.formerId? : Derivation → Option String
  | sha256Double => some "sha256"
  | argon2id => some "argon2"
  | scrypt => none

/-- A former identifier stands for the derivation that it stood for. -/
theorem Derivation.ofId?_formerId {d : Derivation} {id : String} (h : d.formerId? = some id) :
    ofId? id = .ok d := by
  cases d with
  | sha256Double =>
    obtain rfl := Option.some.inj h
    rfl
  | argon2id =>
    obtain rfl := Option.some.inj h
    rfl
  | scrypt => cases h

/-- No derivation is stored under a former identifier today. -/
theorem Derivation.formerId_ne {d other : Derivation} {id : String} (h : d.formerId? = some id) :
    id ≠ other.id := by
  cases d with
  | scrypt => cases h
  | sha256Double | argon2id =>
    obtain rfl := Option.some.inj h
    cases other <;> decide

/-! ### Envelopes -/

namespace Envelope

/-- Are these bytes an envelope of today, and others the same envelope as an earlier version would
    have stored it, under the former identifier of the derivation? -/
def IsFormer (d : Derivation) (former stored : Bytes) : Prop :=
  ∃ e id, d.formerId? = some id ∧ ofBytes? stored = some e ∧ e.derivation = d.id ∧
    ofBytes? former = some { e with derivation := id }

/-- **An envelope of an earlier version is decrypted like the one of today**, with whatever codec
    and password. -/
theorem IsFormer.alike {d : Derivation} {former stored : Bytes} (h : IsFormer d former stored)
    (codec : Codec) : codec.Alike former stored := by
  intro password
  obtain ⟨e, id, hid, hstored, hderivation, hformer⟩ := h
  unfold Codec.decrypt
  rw [hstored, hformer]
  unfold Codec.unwrap
  dsimp only
  -- The identifier is looked up and not used for anything else.
  rw [hderivation, Derivation.ofId?_id, Derivation.ofId?_formerId hid]

/-- What comes out of such an envelope has been wrapped with its derivation. -/
theorem IsFormer.derivation {d made : Derivation} {former stored password text : Bytes}
    (h : IsFormer d former stored) {codec : Codec}
    (hdecrypt : codec.decrypt password former = .ok (text, made)) : made = d := by
  obtain ⟨e, id, hid, -, -, hformer⟩ := h
  unfold Codec.decrypt at hdecrypt
  rw [hformer] at hdecrypt
  unfold Codec.unwrap at hdecrypt
  dsimp only at hdecrypt
  rw [Derivation.ofId?_formerId hid, mapError_ok, ok_bind] at hdecrypt
  obtain ⟨strategy, -, hunlock⟩ := bind_eq_ok.mp hdecrypt
  obtain ⟨aead, -, hcheck⟩ := bind_eq_ok.mp hunlock
  split at hcheck
  · cases hcheck
  · obtain ⟨opened, -, hresult⟩ := bind_eq_ok.mp hcheck
    exact (Prod.mk.inj (Except.ok.inj hresult)).2.symm

end Envelope

/-- What is wrapped with a derivation is stored under the identifier of today. -/
theorem Codec.derivation_of_encrypt {codec : Codec} {password text stored : Bytes} {d : Derivation}
    {entropy rest : Entropy}
    (h : (codec.encrypt password text d).run entropy = (.ok stored, rest)) :
    ∃ e, Envelope.ofBytes? stored = some e ∧ e.derivation = d.id := by
  obtain ⟨_, _, _, -, -, -, -, henvelope⟩ := exists_of_run_encrypt h
  exact ⟨_, henvelope, rfl⟩

/-- Every container that is stored with such a derivation has a former envelope. -/
theorem Storage.exists_isFormer {codec : Codec} {location password id : String} {c : Container}
    {storage next : Storage} (hid : c.derivation.formerId? = some id)
    (h : (save codec location password c).run storage = (.ok (), next)) :
    ∃ stored e, storage.files.Replaced location stored next.files ∧
      Envelope.ofBytes? stored = some e ∧
      Envelope.IsFormer c.derivation (Envelope.toBytes { e with derivation := id }) stored := by
  obtain ⟨stored, hencrypt, hreplaced⟩ := save_effect h
  obtain ⟨e, henvelope, hderivation⟩ := Codec.derivation_of_encrypt hencrypt
  exact ⟨stored, e, hreplaced, henvelope, e, id, hid, henvelope, hderivation,
    Envelope.ofBytes?_toBytes _⟩

/-! ### Tasks one after the other -/

/-- A task with the session that it is carried out in and the terminal that it finds. -/
structure Visit (σ : Type) where
  /-- How the task encrypts and which agent it asks. -/
  session : Session σ
  /-- Where credentials are kept. -/
  vault : Vault
  /-- The task. -/
  task : Task
  /-- The terminal, with what is typed at it. -/
  console : Console

namespace Visit

variable {σ : Type}

/-- The world that a task finds, with nothing printed yet. -/
def start (visit : Visit σ) (world : World σ) : World σ :=
  { world with console := visit.console, output := [] }

/-- Carries out the task: how it ended and what it has printed. -/
def run (visit : Visit σ) : StateM (World σ) (Except Failure Unit × Bytes) := fun world =>
  let (outcome, next) := (visit.task.run visit.session visit.vault).run (visit.start world)
  ((outcome, next.output), next)

/-- A visit that ends well is a task that has succeeded. -/
theorem run_of_ok {visit : Visit σ} {world : World σ} (h : (visit.run world).1.1 = .ok ()) :
    (visit.task.run visit.session visit.vault).run (visit.start world) =
      (.ok (), (visit.run world).2) := Prod.ext h rfl

/-- Does no task take the bytes of a file as they are, as long as they are these? -/
def Apart (path : Path) (data : Bytes) : List (Visit σ) → World σ → Prop
  | [], _ => True
  | visit :: later, world =>
    (∀ taken ∈ visit.task.takes?, ∀ mode,
      world.files.find .look taken ≠ .ok (.found path (.file data mode))) ∧
    Apart path data later (visit.run world).2

variable {path : Path} {old new : Bytes} {world other : World σ}

/-- A task does not notice that a file has other contents if these decrypt alike. -/
theorem agree_twins {visit : Visit σ} (halike : visit.session.codec.Alike old new)
    (h : World.Twins path old new world other)
    (hapart : ∀ taken ∈ visit.task.takes?, ∀ mode,
      world.files.find .look taken ≠ .ok (.found path (.file old mode))) :
    (visit.run other).1 = (visit.run world).1 ∧
      World.Twins path old new (visit.run world).2 (visit.run other).2 := by
  have hstart : World.Twins path old new (visit.start world) (visit.start other) :=
    ⟨h.files, h.entropy, h.store, rfl, rfl⟩
  have hreads : ∀ taken ∈ visit.task.takes?,
      (visit.start other).files.read taken = (visit.start world).files.read taken := by
    intro taken htaken
    rcases h.files.read taken with hread | ⟨⟨mode, hfind⟩, -, -⟩
    · exact hread
    · exact absurd hfind (hapart taken htaken mode)
  obtain ⟨houtcome, hnext⟩ :=
    Task.agree_twins halike visit.vault visit.task _ _ ⟨hstart, hreads⟩
  refine ⟨?_, hnext⟩
  exact Prod.ext houtcome hnext.output

/-- Nor does any number of tasks, one after the other. -/
theorem replies_of_twins (halike : ∀ codec : Codec, codec.Alike old new) (visits : List (Visit σ))
    (h : World.Twins path old new world other) (hapart : Apart path old visits world) :
    (visits.mapM run other).1 = (visits.mapM run world).1 ∧
      World.Twins path old new (visits.mapM run world).2 (visits.mapM run other).2 := by
  -- On the tasks; the worlds are arbitrary, since the first task changes them.
  induction visits generalizing world other with
  | nil => exact ⟨rfl, h⟩
  | cons visit later ih =>
    obtain ⟨hfirst, hlater⟩ := hapart
    obtain ⟨hreply, hnext⟩ := agree_twins (halike _) h hfirst
    obtain ⟨hreplies, hlast⟩ := ih hnext hlater
    rw [mapM_state_cons, mapM_state_cons, hreply, hreplies]
    exact ⟨rfl, hlast⟩

end Visit

/-! ### Changing -/

namespace Task

/-- The container that a task changes. -/
def changes? : Task → Option String
  | put location _ _ | delete location _ | rename location _ _ => some location
  | init _ _ | list _ | get _ _ | encrypt _ _ _ | decrypt _ _ | remember _ | forget _ | obfuscate _
  | variableNames => none

/-- Is this what a task makes of a container?  Texts to put are read from files. -/
def Edits (files : Files) (c changed : Container) : Task → Prop
  | put _ name valueFile =>
    ∃ text, files.readText valueFile = .ok text ∧ changed = (c.upsert name text).2
  | delete _ name => c.delete name = .ok changed
  | rename _ name newName => c.rename name newName = .ok changed
  | init _ _ | list _ | get _ _ | encrypt _ _ _ | decrypt _ _ | remember _ | forget _ | obfuscate _
  | variableNames => False

/-- Changing the entries does not change the key derivation. -/
theorem Edits.derivation {files : Files} {c changed : Container} {task : Task}
    (h : task.Edits files c changed) : changed.derivation = c.derivation := by
  cases task with
  | put location name valueFile =>
    obtain ⟨text, -, rfl⟩ := h
    rfl
  | delete location name =>
    replace h : c.delete name = .ok changed := h
    unfold Container.delete at h
    split at h
    · rw [← Except.ok.inj h]
    · cases h
  | rename location name newName =>
    replace h : c.rename name newName = .ok changed := h
    unfold Container.rename at h
    split at h
    · cases h
    · split at h
      · cases h
      · rw [← Except.ok.inj h]
  | init _ _ | list _ | get _ _ | encrypt _ _ _ | decrypt _ _ | remember _ | forget _ | obfuscate _
  | variableNames => exact absurd h id

/-- A task that has changed a container has stored what it made of it, under the password that has
    opened it. -/
theorem changed_of_run {σ : Type} {session : Session σ} {vault : Vault} {task : Task}
    {location : String} {world next : World σ} (htask : task.changes? = some location)
    (h : (task.run session vault).run world = (.ok (), next)) :
    ∃ c password changed stored, session.Opens world location c password ∧
      task.Edits world.files c changed ∧
      (session.codec.encrypt (Bytes.ofText password) changed.toText changed.derivation).run
        world.entropy = (.ok stored, next.entropy) ∧
      world.files.Replaced location stored next.files := by
  cases task with
  | put place name valueFile =>
    obtain rfl := Option.some.inj htask
    obtain ⟨text, c, password, stored, htext, hopens, hrest⟩ := Session.put_effect h
    exact ⟨c, password, _, stored, hopens, ⟨text, htext, rfl⟩, hrest⟩
  | delete place name =>
    obtain rfl := Option.some.inj htask
    exact Session.edit_effect (·.delete name) h
  | rename place name newName =>
    obtain rfl := Option.some.inj htask
    exact Session.edit_effect (·.rename name newName) h
  | init _ _ | list _ | get _ _ | encrypt _ _ _ | decrypt _ _ | remember _ | forget _ | obfuscate _
  | variableNames => cases htask

end Task

namespace Visit

variable {σ : Type} {visit : Visit σ} {location : String} {world other : World σ}
variable {d : Derivation} {former stored : Bytes}

/-- What is left of a former container that a task has changed: the password that has opened it
    opens the changed container, in an envelope under the identifier of today. -/
def Migrates (visit : Visit σ) (location : String) (d : Derivation) (world next : World σ) : Prop :=
  ∃ c password changed written e,
    visit.session.Opens (visit.start world) location c password ∧ c.derivation = d ∧
    visit.task.Edits world.files c changed ∧
    world.files.Replaced location written next.files ∧
    Envelope.ofBytes? written = some e ∧ e.derivation = d.id ∧
    visit.session.codec.Serves password written changed

/-- A task that has changed something has changed a container and stored it. -/
theorem changed_of_run (htask : visit.task.changes? = some location)
    (hrun : (visit.run world).1.1 = .ok ()) :
    ∃ c password changed written rest, visit.session.Opens (visit.start world) location c password ∧
      visit.task.Edits world.files c changed ∧
      (visit.session.codec.encrypt (Bytes.ofText password) changed.toText changed.derivation).run
        world.entropy = (.ok written, rest) ∧
      world.files.Replaced location written (visit.run world).2.files := by
  obtain ⟨c, password, changed, written, hopens, hedits, hencrypt, hreplaced⟩ :=
    Task.changed_of_run htask (run_of_ok hrun)
  exact ⟨c, password, changed, written, _, hopens, hedits, hencrypt, hreplaced⟩

/-- **The first change stores a former container as one of today.** -/
theorem migrates {suite : Suite} (hcodec : visit.session.codec = .ofSuite suite)
    (hformer : Envelope.IsFormer d former stored) (htask : visit.task.changes? = some location)
    (hread : world.files.read location = .ok former) (hrun : (visit.run world).1.1 = .ok ()) :
    visit.Migrates location d world (visit.run world).2 := by
  have hworks : visit.session.codec.Works := by
    rw [hcodec]
    exact Codec.works_ofSuite suite
  have hreversible : visit.session.codec.Reversible := by
    rw [hcodec]
    exact Codec.cipher_ofSuite suite
  obtain ⟨c, password, changed, written, rest, hopens, hedits, hencrypt, hreplaced⟩ :=
    changed_of_run htask hrun
  -- The container was opened from the former envelope, so its derivation is that one.
  have hderivation : c.derivation = d := by
    rcases hunlock : (visit.session.unlock location).run (visit.start world) with ⟨outcome, asked⟩
    obtain rfl : outcome = .ok (c, password) := by
      rw [← hopens, hunlock]
    obtain ⟨-, -, hload⟩ := Session.unlock_eq_ok.mp hunlock
    have hstorage := Session.storage_of_unlock hunlock
    have hfiles : asked.files = world.files := congrArg Storage.files hstorage
    obtain ⟨bytes, hbytes, text, hdecrypt, -⟩ := Storage.load_eq_ok.mp hload
    rw [hfiles, hread] at hbytes
    obtain rfl := Except.ok.inj hbytes
    exact hformer.derivation hdecrypt
  obtain ⟨e, henvelope, hid⟩ := Codec.derivation_of_encrypt hencrypt
  rw [hedits.derivation, hderivation] at hid
  have hsealed : Storage.Sealed visit.session.codec password changed written :=
    Codec.decrypt_of_run_encrypt hreversible (congrArg Prod.fst hencrypt)
  exact ⟨c, password, changed, written, e, hopens, hderivation, hedits, hreplaced, henvelope, hid,
    Codec.serves_of_opensTo hworks hsealed.opensTo⟩

/-- Nothing tells any more that the container was a former one once its file has been replaced. -/
theorem eq_of_twins {path : Path} {slot : Files.Slot} (hformer : Envelope.IsFormer d former stored)
    (h : World.Twins path former stored world other) (hapart : Apart path former [visit] world)
    (htask : visit.task.changes? = some location)
    (hslot : world.files.slot location .resourceBusy = .ok slot) (hpath : slot.path = path)
    (hrun : (visit.run world).1.1 = .ok ()) : (visit.run other).2 = (visit.run world).2 := by
  obtain ⟨-, hnext⟩ := agree_twins (hformer.alike _) h hapart.1
  rcases hnext.files with hsame | ⟨mode, _, hfile, -⟩
  · exact hnext.eq_of_files hsame
  -- What has been written has an identifier of today, so it is not what was there.
  · obtain ⟨c, password, changed, written, rest, -, -, hencrypt, target, htarget, -, hdiffers⟩ :=
      changed_of_run htask hrun
    obtain rfl := Except.ok.inj (hslot.symm.trans htarget)
    have hhere := hdiffers.here
    rw [hpath, hfile] at hhere
    obtain ⟨rfl, -⟩ := Entry.file.inj (Option.some.inj hhere)
    obtain ⟨e, henvelope, htoday⟩ := Codec.derivation_of_encrypt hencrypt
    obtain ⟨old, id, hid, -, -, hold⟩ := hformer
    rw [henvelope] at hold
    obtain rfl := Option.some.inj hold
    exact absurd htoday (Derivation.formerId_ne hid)

end Visit

/-- **Containers of earlier versions keep their meaning.**  Every container that is stored with a
    derivation that had another identifier has a former envelope.  Whatever the codec and the
    password are, a former envelope is decrypted, and opened as a container, like the one of today,
    with the same faults.  Two worlds that have one and the other in a file, and are the same
    otherwise, are not told apart by any number of tasks, unless one takes the bytes of the file as
    they are.  A task that changes a former container stores it under the identifier of today, to be
    opened with the same password; and where it replaces the file, the worlds are the same from
    then on. -/
theorem former_containers_keep_their_meaning :
    (∀ (codec : Codec) (location password id : String) (c : Container) (storage next : Storage),
      c.derivation.formerId? = some id →
      (Storage.save codec location password c).run storage = (.ok (), next) →
        ∃ stored e, storage.files.Replaced location stored next.files ∧
          Envelope.ofBytes? stored = some e ∧
          Envelope.IsFormer c.derivation (Envelope.toBytes { e with derivation := id }) stored) ∧
    ∀ d former stored, Envelope.IsFormer d former stored →
      (∀ (codec : Codec) (password : Bytes),
        codec.decrypt password former = codec.decrypt password stored) ∧
      (∀ (codec : Codec) (files other : Files) (location place password : String),
        files.read location = .ok former → other.read place = .ok stored →
          Storage.load codec files location password = Storage.load codec other place password) ∧
      (∀ {σ : Type} (path : Path) (world other : World σ),
        World.Twins path former stored world other →
          ∀ visits, Visit.Apart path former visits world →
            (visits.mapM Visit.run other).1 = (visits.mapM Visit.run world).1 ∧
              World.Twins path former stored (visits.mapM Visit.run world).2
                (visits.mapM Visit.run other).2) ∧
      ∀ {σ : Type} (visit : Visit σ) (suite : Suite) (location : String) (world : World σ),
        visit.session.codec = .ofSuite suite → visit.task.changes? = some location →
        world.files.read location = .ok former → (visit.run world).1.1 = .ok () →
          visit.Migrates location d world (visit.run world).2 ∧
          ∀ path other slot, World.Twins path former stored world other →
            Visit.Apart path former [visit] world →
            world.files.slot location .resourceBusy = .ok slot → slot.path = path →
              (visit.run other).2 = (visit.run world).2 := by
  refine ⟨fun codec location password id c storage next hid h => Storage.exists_isFormer hid h, ?_⟩
  intro d former stored hformer
  refine ⟨fun codec password => (hformer.alike codec password).symm, ?_, ?_, ?_⟩
  · intro codec files other location place password hfiles hother
    unfold Storage.load Storage.raw
    rw [Disk.look_sound, Disk.look_sound, hfiles, hother, mapError_ok, mapError_ok, ok_bind,
      ok_bind, hformer.alike codec]
  · intro σ path world other h visits hapart
    exact Visit.replies_of_twins hformer.alike visits h hapart
  · intro σ visit suite location world hcodec htask hread hrun
    refine ⟨Visit.migrates hcodec hformer htask hread hrun, ?_⟩
    intro path other slot h hapart hslot hpath
    exact Visit.eq_of_twins hformer h hapart htask hslot hpath hrun

/-- A container with one entry in its former envelope, from which the entry is deleted. -/
theorem former_container_without_its_entry :
    let session : Session Unit := { codec := .ofSuite .chaCha20Poly1305, agent := .dead Unit }
    let visit : Visit Unit :=
      { session, vault := { secretName := "S", secret := none, path := "r" }
        task := .delete "c" "k", console := { answers := [some "p"] } }
    let world : Bytes → World Unit := fun bytes =>
      { files := ({} : Files).insert ["c"] (.file bytes 0o600), entropy := ⟨fun _ => 0, 0⟩
        store := (), console := {} }
    ∃ former stored, Envelope.IsFormer .argon2id former stored ∧
      (visit.run (world former)).1 = (.ok (), []) ∧
      visit.Migrates "c" .argon2id (world former) (visit.run (world former)).2 ∧
      (visit.run (world stored)).2 = (visit.run (world former)).2 := by
  intro session visit world
  obtain ⟨hstores, hkeeps⟩ := former_containers_keep_their_meaning
  have hworks : session.codec.Works := Codec.works_ofSuite .chaCha20Poly1305
  let texts : Std.ExtTreeMap String String := Std.ExtTreeMap.insert ∅ "k" "a"
  let container : Container := { entries := texts, derivation := .argon2id }
  have hvacant : ({} : Files).IsTarget "c" ⟨[], "c", false⟩ :=
    ⟨by decide, rfl, by decide, by decide, [".tmp100000"], by decide⟩
  -- The container is stored today, and then its envelope is made a former one.
  obtain ⟨sealed, entropy, hsealed, hsave⟩ :=
    Storage.save_of_target hworks { files := {}, entropy := ⟨fun _ => 0, 0⟩ } hvacant "p" container
  obtain ⟨stored, e, hreplaced, -, hformer⟩ :=
    hstores session.codec "c" "p" "argon2" container _ _ rfl hsave
  obtain rfl := hreplaced.unique (hvacant.replaced sealed)
  refine ⟨_, stored, hformer, ?_⟩
  generalize Envelope.toBytes { e with derivation := "argon2" } = former at hformer ⊢
  obtain ⟨halike, -, -, hchanges⟩ := hkeeps .argon2id former stored hformer
  have htarget : (world former).files.IsTarget "c" ⟨[], "c", false⟩ :=
    hvacant.insert rfl ⟨by decide, .inl rfl⟩ former 0o600
  have hopens : Storage.OpensTo session.codec "p" container former :=
    ⟨container.toText, (halike session.codec _).trans hsealed, Container.ofText?_toText container⟩
  -- So it opens, and the entry can be deleted.
  let turn : Turn Unit := { command := .delete "k", console := visit.console, store := () }
  obtain ⟨hreply, -⟩ := stored_turn hworks
    ⟨rfl, _, former, 0o600, htarget, rfl, rfl, hopens⟩ turn
    fun _ => ⟨_, Action.run_password_dead "c" (turn.start (world former))⟩
  have hrun : (visit.run (world former)).1 = (.ok (), []) := by
    have hvisit : (visit.run (world former)).1 = (turn.run session "c" (world former)).1 := rfl
    rw [hvisit, hreply]
    show ContainerCommand.ended (ContainerCommand.onMap _ texts (.delete "k")).1 = _
    rw [ContainerCommand.onMap, if_pos Std.ExtTreeMap.mem_insert_self]
    rfl
  obtain ⟨hmigrates, hsame⟩ := hchanges visit .chaCha20Poly1305 "c" (world former) rfl rfl
    (htarget.read rfl) (congrArg Prod.fst hrun)
  refine ⟨hrun, hmigrates, ?_⟩
  have htwins : World.Twins ["c"] former stored (world former) (world stored) :=
    ⟨.inr ⟨0o600, 0o600, rfl, (Files.insert_insert_self {} ["c"] _ _).symm⟩, rfl, rfl, rfl, rfl⟩
  have hapart : Visit.Apart ["c"] former [visit] (world former) := by
    refine ⟨fun taken htaken => ?_, trivial⟩
    cases htaken
  exact hsame ["c"] (world stored) _ htwins hapart htarget.named rfl

end Lockbox
