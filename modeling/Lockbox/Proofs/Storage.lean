import Lockbox.Proofs.Container
import Lockbox.Proofs.Envelope
import Lockbox.Proofs.Files.Refused
import Lockbox.Storage

namespace Lockbox.Storage

/-!
# Containers opened again

What is stored at a location opens again, under the password and with the key derivation that it was
stored with.  Storing either does that or leaves all files as they are.

* `load_eq_ok`, `load_of_read` — opening what is in a file.
* `Sealed`, `OpensTo` — bytes that a container opens from.
* `replace_cases`, `replace_eq_error` — what comes of replacing a file.
* `save_of_target`, `save_cases` — what comes of storing a container.
* `save_eq_error` — what is left where a container cannot be stored.
-/

/-! ### Steps -/

/-- What comes of encrypting. -/
theorem run_encrypt (codec : Codec) (password : String) (text : Bytes) (d : Derivation)
    (storage : Storage) :
    (encrypt codec password text d).run storage =
      (((codec.encrypt (Bytes.ofText password) text d).run storage.entropy).1,
        { storage with
          entropy := ((codec.encrypt (Bytes.ofText password) text d).run storage.entropy).2 }) :=
  rfl

/-- What it takes to encrypt. -/
theorem encrypt_eq_ok {codec : Codec} {password : String} {text stored : Bytes} {d : Derivation}
    {storage next : Storage} :
    (encrypt codec password text d).run storage = (.ok stored, next) ↔ ∃ entropy,
      (codec.encrypt (Bytes.ofText password) text d).run storage.entropy = (.ok stored, entropy) ∧
        next = { storage with entropy } := by
  rw [run_encrypt, Prod.mk.injEq]
  constructor
  · rintro ⟨hstored, rfl⟩
    exact ⟨_, Prod.ext hstored rfl, rfl⟩
  · rintro ⟨entropy, hencrypt, rfl⟩
    rw [hencrypt]
    exact ⟨rfl, rfl⟩

/-- What comes of replacing a file. -/
theorem run_replace (path : String) (data : Bytes) (storage : Storage) (disk : Disk := .sound) :
    (replace path data disk).run storage =
      (((Files.writePrivate path data disk).run storage.files).1.mapError (.access path),
        { storage with files := ((Files.writePrivate path data disk).run storage.files).2 }) :=
  rfl

/-- Replacing a file puts it at a target, or leaves everything as it is. -/
theorem replace_cases (path : String) (data : Bytes) (storage : Storage) :
    (∃ fault, (replace path data).run storage = (.error (.access path fault), storage)) ∨
      ∃ slot, storage.files.IsTarget path slot ∧ (replace path data).run storage =
        (.ok (), { storage with files := storage.files.insert slot.path (.file data 0o600) }) := by
  rw [run_replace]
  rcases Files.writePrivate_cases storage.files path data with
    ⟨fault, hwrite⟩ | ⟨slot, htarget, hwrite⟩
  · rw [hwrite]
    exact .inl ⟨fault, rfl⟩
  · rw [hwrite]
    exact .inr ⟨slot, htarget, rfl⟩

/-- Where a file cannot be replaced, whatever the disk refuses, the files are as they were, but for a
    temporary file. -/
theorem replace_eq_error {path : String} {data : Bytes} {disk : Disk} {storage next : Storage}
    {error : StorageError} (h : (replace path data disk).run storage = (.error error, next)) :
    Files.KeptBut disk storage.files path next.files := by
  rw [run_replace path data storage disk] at h
  rcases hwrite : (Files.writePrivate path data disk).run storage.files with ⟨fault | _, files⟩
  · rw [hwrite] at h
    rw [← (Prod.mk.inj h).2]
    obtain hsame | ⟨file, part, hstrands, -, hstays⟩ := Files.writePrivate_eq_error hwrite
    · exact .inl hsame
    · exact .inr ⟨file, part, hstrands, hstays⟩
  · rw [hwrite] at h
    cases (Prod.mk.inj h).1

/-- The same where a container cannot be stored. -/
theorem save_eq_error {codec : Codec} {location password : String} {container : Container}
    {disk : Disk} {storage next : Storage} {error : StorageError}
    (h : (save codec location password container disk).run storage = (.error error, next)) :
    Files.KeptBut disk storage.files location next.files := by
  unfold save at h
  rcases hencrypt : ((encrypt codec password container.toText container.derivation).adapt
    StorageError.envelope).run storage with ⟨outcome, drawn⟩
  -- Encrypting draws from the randomness and leaves the files alone.
  have hfiles : storage.files = drawn.files := congrArg (fun result => result.2.files) hencrypt
  rw [hfiles]
  cases outcome with
  | error refused =>
    rw [run_bind_of_error hencrypt] at h
    exact .inl (congrArg (·.2.files) h).symm
  | ok stored =>
    rw [run_bind_of_ok hencrypt] at h
    exact replace_eq_error h

/-! ### Opening -/

/-- Bytes that a container opens from under a password. -/
def Sealed (codec : Codec) (password : String) (container : Container) (stored : Bytes) : Prop :=
  codec.decrypt (Bytes.ofText password) stored = .ok (container.toText, container.derivation)

/-- Bytes that a container opens from under a password, however its text is laid out. -/
def OpensTo (codec : Codec) (password : String) (container : Container) (stored : Bytes) : Prop :=
  ∃ text, codec.decrypt (Bytes.ofText password) stored = .ok (text, container.derivation) ∧
    Container.ofText? text container.derivation = .ok container

/-- The text that a container is sealed with reads back. -/
theorem Sealed.opensTo {codec : Codec} {password : String} {container : Container} {stored : Bytes}
    (h : Sealed codec password container stored) : OpensTo codec password container stored :=
  ⟨container.toText, h, Container.ofText?_toText container⟩

/-- A container opens from a file with such bytes. -/
theorem OpensTo.load {codec : Codec} {files : Files} {location password : String}
    {container : Container} {stored : Bytes} (h : OpensTo codec password container stored)
    (hread : files.read location = .ok stored) :
    load codec files location password = .ok container := by
  obtain ⟨text, hdecrypt, htext⟩ := h
  have hraw : raw files location = .ok stored := mapError_eq_ok.mpr hread
  unfold Storage.load
  rw [hraw, ok_bind, hdecrypt, mapError_ok, ok_bind]
  dsimp only
  rw [htext, mapError_ok]

/-- A container opens from a file that it is sealed in. -/
theorem load_of_read {codec : Codec} {files : Files} {location password : String}
    {container : Container} {stored : Bytes} (hread : files.read location = .ok stored)
    (hsealed : Sealed codec password container stored) :
    load codec files location password = .ok container :=
  hsealed.opensTo.load hread

/-- A container opens from such bytes, and from no others. -/
theorem load_eq_ok {codec : Codec} {files : Files} {location password : String}
    {container : Container} : load codec files location password = .ok container ↔
      ∃ stored, files.read location = .ok stored ∧ OpensTo codec password container stored := by
  constructor
  · intro h
    obtain ⟨stored, hraw, hopen⟩ := bind_eq_ok.mp h
    obtain ⟨⟨text, d⟩, hdecrypt, htext⟩ := bind_eq_ok.mp hopen
    obtain rfl := Container.derivation_of_ofText? (mapError_eq_ok.mp htext)
    exact ⟨stored, mapError_eq_ok.mp hraw, text, mapError_eq_ok.mp hdecrypt,
      mapError_eq_ok.mp htext⟩
  · rintro ⟨stored, hread, hopens⟩
    exact hopens.load hread

/-- A container that opens is in a file. -/
theorem read_of_load {codec : Codec} {files : Files} {location password : String}
    {container : Container} (h : load codec files location password = .ok container) :
    ∃ stored, files.read location = .ok stored := by
  obtain ⟨stored, hread, -⟩ := load_eq_ok.mp h
  exact ⟨stored, hread⟩

/-- What opens depends on nothing but the file. -/
theorem load_congr {files other : Files} {location : String}
    (h : files.read location = other.read location) (codec : Codec) (password : String) :
    load codec files location password = load codec other location password := by
  unfold load raw
  rw [Disk.look_sound, Disk.look_sound, h]

/-- A location that is not refused is none of a remote address. -/
theorem check_eq_ok {location : String} :
    check location = .ok () ↔ Location.isRemote location = false := by
  unfold check
  cases Location.isRemote location with
  | true => exact ⟨nofun, nofun⟩
  | false => exact ⟨fun _ => rfl, fun _ => rfl⟩

/-! ### Storing -/

variable {codec : Codec} (hworks : codec.Works)
include hworks

/-- What comes of storing a container: it is sealed, and then put into its file. -/
theorem exists_save (location password : String) (container : Container) (storage : Storage) :
    ∃ stored entropy, Sealed codec password container stored ∧
      (save codec location password container).run storage =
        (((Files.writePrivate location stored).run storage.files).1.mapError (.access location),
          { files := ((Files.writePrivate location stored).run storage.files).2, entropy }) := by
  obtain ⟨stored, entropy, hencrypt, hdecrypt⟩ :=
    hworks (Bytes.ofText password) container.toText container.derivation storage.entropy
  refine ⟨stored, entropy, hdecrypt, ?_⟩
  unfold save
  -- Encrypting draws from the randomness and leaves the files alone.
  have hstored : ((encrypt codec password container.toText container.derivation).adapt
      StorageError.envelope).run storage = (.ok stored, { storage with entropy }) := by
    show ((encrypt codec password container.toText container.derivation).run storage).map
      (Except.mapError StorageError.envelope) id = _
    rw [run_encrypt, hencrypt]
    rfl
  rw [run_bind_of_ok hstored, run_replace]

/-- A container is stored at every target. -/
theorem save_of_target {location : String} {slot : Files.Slot} (storage : Storage)
    (h : storage.files.IsTarget location slot) (password : String) (container : Container) :
    ∃ stored entropy, Sealed codec password container stored ∧
      (save codec location password container).run storage =
        (.ok (), { files := storage.files.insert slot.path (.file stored 0o600), entropy }) := by
  obtain ⟨stored, entropy, hsealed, hsave⟩ :=
    exists_save hworks location password container storage
  rw [Files.run_writePrivate h] at hsave
  exact ⟨stored, entropy, hsealed, hsave⟩

/-- **Storing puts a container into the file at a target, or leaves all files as they are.** -/
theorem save_cases (location password : String) (container : Container) (storage : Storage) :
    (∃ fault entropy, (save codec location password container).run storage =
        (.error (.access location fault), { storage with entropy })) ∨
      ∃ slot stored entropy, storage.files.IsTarget location slot ∧
        Sealed codec password container stored ∧
        (save codec location password container).run storage =
          (.ok (), { files := storage.files.insert slot.path (.file stored 0o600), entropy }) := by
  obtain ⟨stored, entropy, hsealed, hsave⟩ :=
    exists_save hworks location password container storage
  rcases Files.writePrivate_cases storage.files location stored with
    ⟨fault, hwrite⟩ | ⟨slot, htarget, hwrite⟩
  · rw [hwrite] at hsave
    exact .inl ⟨fault, entropy, hsave⟩
  · rw [hwrite] at hsave
    exact .inr ⟨slot, stored, entropy, htarget, hsealed, hsave⟩

end Lockbox.Storage
