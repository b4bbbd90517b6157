import Lockbox.Proofs.Json.Grammar
import Lockbox.Proofs.Session.Freshness
import Lockbox.Proofs.Session.Refinement

namespace Lockbox

/-!
# One format for files and containers

A single file that is encrypted and a container that is stored are the same kind of envelope.  Each
is decrypted to exactly the text that went in, and a file that was encrypted is a container wherever
its text describes one, even one that no container would have been written as.

* `Codec.decrypt_blanks` — blanks after an envelope do not matter.
* `Codec.Restores`, `Codec.restores_of_decrypt` — bytes that a text comes back from.
* `Session.Encrypts` — what encrypting a file has written.
* `Follows`, `Codec.Serves` — bytes that are a container, and runs of commands on it.
* `encrypted_files_and_containers_are_one_format` — what holds of both.
-/

variable {σ : Type}

open Lockbox.Action

/-! ### Blanks after an envelope -/

/-- An envelope is the same with blanks after it. -/
theorem Envelope.ofBytes?_blanks {stored blanks : Bytes} {e : Envelope}
    (h : ofBytes? stored = some e) (hblanks : Json.IsBlank blanks) :
    ofBytes? (stored ++ blanks) = some e := by
  obtain ⟨value, hvalue, he⟩ := Option.bind_eq_some_iff.mp h
  exact Option.bind_eq_some_iff.mpr ⟨value, Json.parse?_blanks hvalue hblanks, he⟩

/-- What can be decrypted can be decrypted with blanks after it. -/
theorem Codec.decrypt_blanks {codec : Codec} {password stored blanks text : Bytes} {d : Derivation}
    (h : codec.decrypt password stored = .ok (text, d)) (hblanks : Json.IsBlank blanks) :
    codec.decrypt password (stored ++ blanks) = .ok (text, d) := by
  unfold decrypt at h ⊢
  cases henvelope : Envelope.ofBytes? stored with
  | none =>
    rw [henvelope] at h
    cases h
  | some e =>
    rw [henvelope] at h
    rw [Envelope.ofBytes?_blanks henvelope hblanks]
    exact h

/-! ### Decrypting -/

/-- Does a text come back from these bytes under this password?  In whatever file they are and
    whatever else there is, decrypting gives exactly the text, on the output or in a file. -/
def Codec.Restores (codec : Codec) (password : String) (stored text : Bytes) : Prop :=
  ∀ {σ : Type} (session : Session σ) (input : String) (world asked : World σ),
    session.codec = codec → world.files.read input = .ok stored →
    (Action.password session.agent input).run world = (.ok password, asked) →
    (∃ next, (session.decrypt input none).run world = (.ok (), next) ∧
        next.files = world.files ∧ next.output = world.output ++ text) ∧
      ∀ path slot, world.files.IsTarget path slot →
        ∃ next, (session.decrypt input (some path)).run world = (.ok (), next) ∧
          next.files = world.files.insert slot.path (.file text 0o600) ∧
          next.output = world.output

/-- Writes a text to a file or to the output. -/
def Session.deliver (output : Option String) (text : Bytes) : Action σ Unit :=
  match output with
  | some path => onStorage .storage (Storage.replace path text)
  | none => emit text

/-- Decrypting reads a file, gets a password and writes what comes out. -/
theorem Session.run_decrypt {session : Session σ} {input : String} {world asked : World σ}
    {password : String} {stored text : Bytes} {d : Derivation}
    (hread : world.files.read input = .ok stored)
    (hpassword : (Action.password session.agent input).run world = (.ok password, asked))
    (hdecrypt : session.codec.decrypt (Bytes.ofText password) stored = .ok (text, d))
    (output : Option String) :
    (session.decrypt input output).run world = (deliver output text).run asked := by
  unfold decrypt
  rw [run_bind_of_ok (run_files world), Refusals.disk_nothing, Disk.look_sound,
    run_bind_of_ok (run_within_attempt_of_ok hread _ world),
    run_bind_of_ok hpassword, run_bind_of_ok (run_within_attempt_of_ok hdecrypt _ asked)]
  cases output <;> rfl

/-- A file is put wherever there is a place for it. -/
theorem Session.run_deliver_of_target {world : World σ} {path : String} {slot : Files.Slot}
    (htarget : world.files.IsTarget path slot) (text : Bytes) :
    (deliver (some path) text).run world =
      (.ok (), { world with files := world.files.insert slot.path (.file text 0o600) }) := by
  unfold deliver
  dsimp only
  rw [run_onStorage, Storage.run_replace]
  dsimp only
  rw [Files.run_writePrivate htarget]
  rfl

/-- A text comes back from bytes that are decrypted to it. -/
theorem Codec.restores_of_decrypt {codec : Codec} {password : String} {stored text : Bytes}
    {d : Derivation} (h : codec.decrypt (Bytes.ofText password) stored = .ok (text, d)) :
    codec.Restores password stored text := by
  rintro σ session input world asked rfl hread hpassword
  -- Getting the password leaves the files and the output alone.
  have hkept := preserves_password
    (P := fun next => next.toStorage = world.toStorage ∧ next.output = world.output)
    session.agent input (fun _ _ h => h) (fun _ _ h => h) world ⟨rfl, rfl⟩
  rw [hpassword] at hkept
  obtain ⟨hstorage, houtput⟩ := hkept
  have hfiles : asked.files = world.files := congrArg Storage.files hstorage
  refine ⟨⟨_, Session.run_decrypt hread hpassword h none, hfiles, ?_⟩, fun path slot htarget => ?_⟩
  · show asked.output ++ text = _
    rw [houtput]
  · rw [← hfiles] at htarget ⊢
    refine ⟨{ asked with files := asked.files.insert slot.path (.file text 0o600) }, ?_, rfl,
      houtput⟩
    rw [Session.run_decrypt hread hpassword h (some path), Session.run_deliver_of_target htarget]

/-! ### Encrypting -/

/-- Have these bytes been written: to a file, or to the output? -/
def World.Leaves (world next : World σ) (written : Bytes) : Option String → Prop
  | some path => world.files.Replaced path written next.files
  | none => next.output = world.output ++ written

/-- Only one file is put where a written path says. -/
theorem Files.Replaced.unique {files next : Files} {written : String} {data other : Bytes}
    (h : files.Replaced written data next) (hother : files.Replaced written other next) :
    data = other :=
  Option.some.inj (h.replacement?.symm.trans hother.replacement?)

/-- Only one text is added to the output, and only one file put anywhere. -/
theorem World.Leaves.unique {world next : World σ} {output : Option String}
    {written other : Bytes} (h : world.Leaves next written output)
    (hother : world.Leaves next other output) : written = other := by
  cases output with
  | some path => exact Files.Replaced.unique h hother
  | none => exact List.append_cancel_left (h.symm.trans hother)

/-- A file that has been encrypted: what was in it, the password typed, and all that has been
    written, be it to a file or to the output. -/
structure Session.Encrypts (session : Session σ) (input : String) (output : Option String)
    (d : Derivation) (world next : World σ) (password : String) (text written : Bytes) : Prop where
  /-- It has been encrypted. -/
  done : (session.encrypt input output d).run world = (.ok (), next)
  /-- This was in the file. -/
  read : world.files.read input = .ok text
  /-- This password was typed. -/
  typed : newPassword.Gives world password
  /-- This has been written. -/
  left : world.Leaves next written output

namespace Session

variable {session : Session σ} {input : String} {output : Option String} {d : Derivation}
variable {world typed : World σ} {password : String} {text : Bytes}

/-- A file that can be read is encrypted once a password has been typed, if there is a place for
    what is to be written. -/
theorem exists_encrypts (hworks : session.codec.Works) (hread : world.files.read input = .ok text)
    (hpassword : newPassword.run world = (.ok password, typed))
    (htarget : ∀ path ∈ output, ∃ slot, world.files.IsTarget path slot) (d : Derivation) :
    ∃ next written, session.Encrypts input output d world next password text written := by
  obtain ⟨hgives, console, rfl⟩ := newPassword_effect hpassword
  obtain ⟨stored, entropy, hencrypt, -⟩ :=
    hworks (Bytes.ofText password) text d world.entropy
  have hstored : (onStorage .envelope (Storage.encrypt session.codec password text d)).run
      { world with console } = (.ok stored, { world with console, entropy }) := by
    rw [run_onStorage, Storage.run_encrypt, hencrypt]
    rfl
  -- What is left to do is to write the envelope down, with a new line after it on the output.
  have hrun : ∀ output, (session.encrypt input output d).run world =
      (deliver output (if output = none then stored ++ [10] else stored)).run
        { world with console, entropy } := by
    intro output
    unfold encrypt
    rw [run_bind_of_ok (run_files world), Refusals.disk_nothing, Disk.look_sound,
      run_bind_of_ok (run_within_attempt_of_ok hread _ world),
      run_bind_of_ok hpassword, run_bind_of_ok (run_within_eq_ok.mpr hstored)]
    cases output <;> rfl
  cases output with
  | none => exact ⟨_, stored ++ [10], hrun none, hread, hgives, rfl⟩
  | some path =>
    obtain ⟨slot, hslot⟩ := htarget path rfl
    have hdrawn : ({ world with console, entropy } : World σ).files.IsTarget path slot := hslot
    exact ⟨_, stored, (hrun (some path)).trans (run_deliver_of_target hdrawn stored), hread,
      hgives, hslot.replaced stored⟩

/-- What has been written is decrypted to what was in the file, with the new line that stands after
    it on the output. -/
theorem Encrypts.decrypt {next : World σ} {written : Bytes} (hcodec : session.codec.Reversible)
    (h : session.Encrypts input output d world next password text written) :
    session.codec.decrypt (Bytes.ofText password) written = .ok (text, d) := by
  obtain ⟨seen, given, stored, hread, hgives, hencrypt, hputs⟩ := encrypt_effect h.done
  obtain rfl := Except.ok.inj (h.read.symm.trans hread)
  obtain rfl := Except.ok.inj (h.typed.symm.trans hgives)
  have hdecrypt := Codec.decrypt_of_run_encrypt hcodec (congrArg Prod.fst hencrypt)
  have hline : Json.IsBlank [10] := by simp [Json.IsBlank, Json.Token.isBlank]
  have hleft := h.left
  cases output with
  | some path =>
    obtain rfl := hleft.unique hputs
    exact hdecrypt
  | none =>
    obtain rfl := hleft.unique hputs.2
    exact Codec.decrypt_blanks hdecrypt hline

end Session

/-! ### Containers -/

/-- The worlds that a run of commands leads to from a world where a container is some map, each
    command getting the same password, each world with the map that the container should be. -/
inductive Follows (session : Session σ) (location password : String) (start : World σ)
    (initial : Std.ExtTreeMap String String) : World σ → Std.ExtTreeMap String String → Prop
  /-- No command has been given. -/
  | start : Follows session location password start initial start initial
  /-- A command has been given. -/
  | turn {world : World σ} {texts : Std.ExtTreeMap String String} (turn : Turn σ)
      (h : Follows session location password start initial world texts)
      (hgets : turn.Gets session location password world) :
      Follows session location password start initial (turn.run session location world).2
        (turn.command.onMap world.files texts).2

/-- Every run keeps the map in the file. -/
theorem Follows.stored {session : Session σ} {location password : String} {d : Derivation}
    {start world : World σ} {initial texts : Std.ExtTreeMap String String}
    (hworks : session.codec.Works)
    (hstart : Stored session.codec location password d start.files initial)
    (h : Follows session location password start initial world texts) :
    Stored session.codec location password d world.files texts := by
  induction h with
  | start => exact hstart
  | turn turn _ hgets ih => exact (stored_turn hworks ih turn hgets).2

/-- Are these bytes a container?  It opens from every file that they are in.  Where the file can be
    replaced, every run of commands does to it what it does to the map of its entries, and so what
    it does to a container that has been made. -/
def Codec.Serves (codec : Codec) (password : String) (stored : Bytes) (c : Container) : Prop :=
  (∀ files location, files.read location = .ok stored →
    Storage.load codec files location password = .ok c) ∧
  ∀ {σ : Type} (session : Session σ) (location : String) (start : World σ) (slot : Files.Slot)
      (mode : Nat), session.codec = codec → Storage.check location = .ok () →
    start.files.IsTarget location slot →
    start.files.entry? slot.directory = some .directory →
    start.files.entry? slot.path = some (.file stored mode) →
    ∀ world texts, Follows session location password start c.entries world texts →
      Storage.load codec world.files location password =
        .ok { entries := texts, derivation := c.derivation } ∧
      ∀ turn : Turn σ, turn.Gets session location password world →
        (turn.run session location world).1 =
          ContainerCommand.ended (turn.command.onMap world.files texts).1 ∧
        ∀ place secret d made, Holds session place secret d made texts → ∀ other : Turn σ,
          other.Gets session place secret made → other.command = turn.command →
          turn.command.onMap made.files texts = turn.command.onMap world.files texts →
          (other.run session place made).1 = (turn.run session location world).1

/-- Bytes that a container opens from are a container. -/
theorem Codec.serves_of_opensTo {codec : Codec} (hworks : codec.Works) {password : String}
    {stored : Bytes} {c : Container} (h : Storage.OpensTo codec password c stored) :
    codec.Serves password stored c := by
  refine ⟨fun files location hread => h.load hread, ?_⟩
  rintro σ session location start slot mode rfl hcheck htarget hparent hfile world texts hfollows
  have hstored : Stored session.codec location password c.derivation world.files texts :=
    hfollows.stored hworks ⟨hcheck, slot, stored, mode, htarget, hparent, hfile, h⟩
  refine ⟨hstored.load, fun turn hgets => ?_⟩
  obtain ⟨hreply, -⟩ := stored_turn hworks hstored turn hgets
  refine ⟨hreply, ?_⟩
  intro place secret d made hmade other hother hcommand hsame
  rw [(stored_turn hworks (hmade.stored hworks) other hother).1, hreply, hcommand, hsame]

/-! ### Both -/

/-- **Files and containers are one format.**  Every file that can be read is encrypted, to a file or
    to the output; what has been written there, kept in any file, is decrypted to exactly what was
    in the first, and is a container if that describes one, with the key derivation chosen.  Every
    container that has been stored is decrypted to exactly its text. -/
theorem encrypted_files_and_containers_are_one_format {session : Session σ} {suite : Suite}
    (hcodec : session.codec = .ofSuite suite) :
    (∀ input output d world typed password text, world.files.read input = .ok text →
      newPassword.run world = (.ok password, typed) →
      (∀ path ∈ output, ∃ slot, world.files.IsTarget path slot) →
      ∃ next written, session.Encrypts input output d world next password text written) ∧
    (∀ input output d world next password text written,
      session.Encrypts input output d world next password text written →
        session.codec.Restores password written text ∧
        ∀ c, Container.ofText? text d = .ok c →
          c.derivation = d ∧ session.codec.Serves password written c) ∧
    ∀ location password c storage next,
      (Storage.save session.codec location password c).run storage = (.ok (), next) →
        (∃ stored, storage.files.Replaced location stored next.files) ∧
        ∀ stored, storage.files.Replaced location stored next.files →
          session.codec.Restores password stored c.toText := by
  have hworks : session.codec.Works := by
    rw [hcodec]
    exact Codec.works_ofSuite suite
  have hreversible : session.codec.Reversible := by
    rw [hcodec]
    exact Codec.cipher_ofSuite suite
  refine ⟨?_, ?_, ?_⟩
  · intro input output d world typed password text hread hpassword htarget
    exact Session.exists_encrypts hworks hread hpassword htarget d
  · intro input output d world next password text written h
    have hdecrypt := h.decrypt hreversible
    refine ⟨Codec.restores_of_decrypt hdecrypt, fun c hc => ?_⟩
    obtain rfl := Container.derivation_of_ofText? hc
    exact ⟨rfl, Codec.serves_of_opensTo hworks ⟨text, hdecrypt, hc⟩⟩
  · intro location password c storage next hsave
    obtain ⟨sealed, hencrypt, hreplaced⟩ := Storage.save_effect hsave
    refine ⟨⟨sealed, hreplaced⟩, fun stored hstored => ?_⟩
    obtain rfl := hreplaced.unique hstored
    exact Codec.restores_of_decrypt
      (Codec.decrypt_of_run_encrypt hreversible (congrArg Prod.fst hencrypt))

/-- A list with a name in it twice, encrypted onto the output and kept in a file. -/
theorem encrypted_list_is_container :
    let session : Session Unit := { codec := .ofSuite .chaCha20Poly1305, agent := .dead Unit }
    let text := Bytes.ofText "[[\"k\",\"a\"],[\"k\",\"b\"]]"
    let world : World Unit :=
      { files := ({} : Files).insert ["t"] (.file text 0o644), entropy := ⟨fun _ => 0, 0⟩
        store := (), console := { answers := [some "p", some "p"] } }
    ∃ next written, session.Encrypts "t" none .scrypt world next "p" text written ∧
      let kept : World Unit :=
        { files := ({} : Files).insert ["c"] (.file written 0o600), entropy := next.entropy
          store := (), console := { answers := [some "p"] } }
      (∃ after, (session.decrypt "c" none).run kept = (.ok (), after) ∧ after.output = text) ∧
      let turn : Turn Unit := { command := .get "k", console := kept.console, store := () }
      (turn.run session "c" kept).1 = (.ok (), ContainerCommand.line "b") := by
  intro session text world
  have hcodec : session.codec = .ofSuite .chaCha20Poly1305 := rfl
  obtain ⟨hencrypts, hwritten, -⟩ := encrypted_files_and_containers_are_one_format hcodec
  obtain ⟨next, written, h⟩ := hencrypts "t" none .scrypt world _ "p" text rfl rfl nofun
  refine ⟨next, written, h, ?_⟩
  intro kept
  obtain ⟨hrestores, hcontainer⟩ := hwritten "t" none .scrypt world next "p" text written h
  have hvacant : ({} : Files).IsTarget "c" ⟨[], "c", false⟩ :=
    ⟨by decide, rfl, by decide, by decide, [".tmp100000"], by decide⟩
  have htarget : kept.files.IsTarget "c" ⟨[], "c", false⟩ :=
    hvacant.insert rfl ⟨by decide, .inl rfl⟩ written 0o600
  have hread : kept.files.read "c" = .ok written := htarget.read rfl
  have hpassword := Action.run_password_dead "c" kept
  obtain ⟨⟨after, hdecrypt, -, houtput⟩, -⟩ :=
    hrestores session "c" kept _ rfl hread hpassword
  refine ⟨⟨after, hdecrypt, houtput⟩, ?_⟩
  -- The last text of a name is the one that counts.
  let texts : Std.ExtTreeMap String String := (Std.ExtTreeMap.insert ∅ "k" "a").insert "k" "b"
  have hc : Container.ofText? text .scrypt = .ok { entries := texts, derivation := .scrypt } := rfl
  obtain ⟨-, -, hserves⟩ := hcontainer _ hc
  obtain ⟨-, hturns⟩ := hserves session "c" kept ⟨[], "c", false⟩ 0o600 rfl rfl htarget rfl rfl
    kept texts .start
  intro turn
  obtain ⟨hreply, -⟩ := hturns turn fun _ => ⟨_, Action.run_password_dead "c" _⟩
  rw [hreply]
  show ContainerCommand.ended (ContainerCommand.onMap _ _ (.get "k")).1 = _
  rw [ContainerCommand.onMap, Std.ExtTreeMap.getElem?_insert_self]
  rfl

end Lockbox
