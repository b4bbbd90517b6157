import Lockbox.Proofs.Credentials.Record
import Lockbox.Proofs.Credentials.Storing

namespace Lockbox.Vault

/-!
# Credentials that come back

Credentials are stored whatever they are, but only some of them come back: the user has to be
legible, and the password must not be empty, nor must the line of the user hold another one.

* `obfuscate_eq_ok`, `deobfuscate_eq_ok` — what it takes to store and to read credentials.
* `IsRecoverable` — the credentials that come back, `isRecoverable_of_legible` the ordinary ones.
* `deobfuscate_iff_isRecoverable` — that these do, and no others.
* `credentials_lost` — some that do not.
-/

variable {vault : Vault} {user password : String} {files next : Files} {c : Cfb8}

/-! ### Storing and reading -/

/-- Unmasking undoes masking. -/
theorem toTextLossy_mask : (c.decrypt (mask c password)).1.toTextLossy = password := by
  rw [mask, Cfb8.decrypt_encrypt, Bytes.toTextLossy_ofText]

/-- Only the empty password leaves nothing to be written. -/
theorem mask_eq_nil_iff : mask c password = [] ↔ password = "" := by
  have hempty : mask c password = [] ↔ Bytes.ofText password = [] := by
    rw [← List.length_eq_zero_iff, mask, Cfb8.length_encrypt, List.length_eq_zero_iff]
  rw [hempty]
  constructor
  · intro hnil
    have hread := Bytes.toText?_ofText password
    rw [hnil] at hread
    exact (Option.some.inj hread).symm
  · rintro rfl
    rfl

/-- A secret that is a text and not empty has a cryptor. -/
theorem cryptor_of_secret {secret : String} (hsecret : vault.secret = some (Bytes.ofText secret))
    (hne : secret ≠ "") : vault.cryptor = .ok (Cfb8.ofSecret (Bytes.ofText secret)) := by
  unfold cryptor
  rw [hsecret, Option.bind_some, Bytes.toText?_ofText]
  split
  · rename_i heq
    cases heq
  · rename_i heq
    exact absurd (Option.some.inj heq) hne
  · rename_i heq
    rw [Option.some.inj heq]

/-- What it takes to store credentials: the secret, nothing at the path, and a place for the
    record. -/
theorem obfuscate_eq_ok : vault.obfuscate user password files = .ok next ↔
    ∃ c, vault.cryptor = .ok c ∧ files.exists? vault.path ≠ .ok true ∧
      files.create vault.path (Bytes.ofText (written c user password)) = .ok next := by
  rw [obfuscate_eq]
  cases vault.cryptor with
  | error error => exact ⟨nofun, nofun⟩
  | ok c =>
    dsimp only
    split
    · rename_i hexists
      constructor
      · exact nofun
      · rintro ⟨_, -, hnone, -⟩
        exact absurd hexists hnone
    · rename_i hexists
      rw [mapError_eq_ok]
      constructor
      · exact fun hcreate => ⟨c, rfl, hexists, hcreate⟩
      · rintro ⟨_, hsame, -, hcreate⟩
        rwa [Except.ok.inj hsame]

/-- What it takes to read credentials from a text: a record in it. -/
theorem deobfuscate_eq_ok {text : String} (hcryptor : vault.cryptor = .ok c)
    (htext : files.readText vault.path = .ok text) :
    vault.deobfuscate files = .ok (user, password) ↔
      ∃ masked, Record.ofText? text = some { user, masked } ∧
        (c.decrypt masked).1.toTextLossy = password := by
  unfold deobfuscate
  rw [hcryptor, ok_bind, htext, mapError_ok, ok_bind]
  cases Record.ofText? text with
  | none => exact ⟨nofun, nofun⟩
  | some record =>
    dsimp only
    constructor
    · intro h
      obtain ⟨rfl, rfl⟩ := Prod.mk.inj (Except.ok.inj h)
      exact ⟨record.masked, rfl, rfl⟩
    · rintro ⟨masked, hrecord, rfl⟩
      rw [Option.some.inj hrecord]
      rfl

/-- The record that has been stored is the text that is read. -/
theorem readText_of_obfuscate (hcryptor : vault.cryptor = .ok c)
    (h : vault.obfuscate user password files = .ok next) :
    next.readText vault.path = .ok (written c user password) := by
  obtain ⟨_, hsame, -, hcreate⟩ := obfuscate_eq_ok.mp h
  obtain rfl := Except.ok.inj (hcryptor.symm.trans hsame)
  unfold Files.readText
  rw [Files.read_of_create hcreate, ok_bind, Bytes.toText?_ofText]
  rfl

/-- Where the text holds no record, reading says so. -/
theorem deobfuscate_of_unparseable {text : String} (hcryptor : vault.cryptor = .ok c)
    (htext : files.readText vault.path = .ok text) (hnone : Record.ofText? text = none) :
    vault.deobfuscate files = .error (.unparseable vault.path) := by
  unfold deobfuscate
  rw [hcryptor, ok_bind, htext, mapError_ok, ok_bind, hnone]
  rfl

/-! ### Recovering -/

/-- The credentials that come back: a legible user with a password that is not empty, if the line of
    the user holds none.  If it does, the password must be the one that it holds. -/
def IsRecoverable (c : Cfb8) (user password : String) : Prop :=
  Record.IsLegible user ∧
    ((∃ masked, Record.HoldsMasked (Record.userLine user) masked ∧
        (c.decrypt masked).1.toTextLossy = password) ∨
      (∀ masked, ¬ Record.HoldsMasked (Record.userLine user) masked) ∧ password ≠ "")

/-- Ordinary credentials come back. -/
theorem isRecoverable_of_legible (c : Cfb8) (huser : Record.IsLegible user)
    (hmarker : '#' ∉ user.toList) (hpassword : password ≠ "") : IsRecoverable c user password := by
  refine ⟨huser, .inr ⟨?_, hpassword⟩⟩
  apply Record.not_holdsMasked_of_notMem
  rw [Record.mem_userLine, not_or]
  exact ⟨by decide, hmarker⟩

/-- **The credentials that come back.**  Credentials that have been stored are read back if they are
    recoverable, and not otherwise, wherever the record is and whatever the secret. -/
theorem deobfuscate_iff_isRecoverable (h : vault.obfuscate user password files = .ok next) :
    ∃ c, vault.cryptor = .ok c ∧
      (vault.deobfuscate next = .ok (user, password) ↔ IsRecoverable c user password) := by
  obtain ⟨c, hcryptor, -⟩ := obfuscate_eq_ok.mp h
  refine ⟨c, hcryptor, ?_⟩
  rw [deobfuscate_eq_ok hcryptor (readText_of_obfuscate hcryptor h)]
  constructor
  · rintro ⟨found, hrecord, hpassword⟩
    obtain ⟨hlegible, hheld | ⟨hnone, hne, rfl⟩⟩ := Record.ofText?_toText_iff.mp hrecord
    · exact ⟨hlegible, .inl ⟨found, hheld, hpassword⟩⟩
    · exact ⟨hlegible, .inr ⟨hnone, mask_eq_nil_iff.not.mp hne⟩⟩
  · rintro ⟨hlegible, ⟨found, hheld, hpassword⟩ | ⟨hnone, hne⟩⟩
    · exact ⟨found, Record.ofText?_toText_iff.mpr ⟨hlegible, .inl hheld⟩, hpassword⟩
    · have hmasked : mask c password ≠ [] := mask_eq_nil_iff.not.mpr hne
      exact ⟨mask c password,
        Record.ofText?_toText_iff.mpr ⟨hlegible, .inr ⟨hnone, hmasked, rfl⟩⟩, toTextLossy_mask⟩

/-- A vault with a secret in a directory without files. -/
def sample : Vault :=
  { secretName := "S", secret := some (Bytes.ofText "k"), path := "r" }

theorem cryptor_sample : sample.cryptor = .ok (Cfb8.ofSecret (Bytes.ofText "k")) :=
  cryptor_of_secret rfl (by decide)

/-- Whatever the credentials, they are stored there. -/
theorem exists_obfuscate_sample (user password : String) :
    ∃ next, sample.obfuscate user password {} = .ok next := by
  have hmade : ∀ data, Files.create {} sample.path data =
      .ok (Files.insert {} ["r"] (.file data 0o644)) :=
    fun data => Files.create_eq_ok.mpr ⟨["r"], by decide, rfl⟩
  exact ⟨_, obfuscate_eq_ok.mpr ⟨_, cryptor_sample, by decide, hmade _⟩⟩

/-- Credentials that come back. -/
theorem alice_recovered : ∃ next, sample.obfuscate "alice" "p" {} = .ok next ∧
    sample.deobfuscate next = .ok ("alice", "p") := by
  obtain ⟨next, hstored⟩ := exists_obfuscate_sample "alice" "p"
  obtain ⟨c, -, hiff⟩ := deobfuscate_iff_isRecoverable hstored
  exact ⟨next, hstored, hiff.mpr (isRecoverable_of_legible c (by decide) (by decide) (by decide))⟩

/-- **Credentials can be lost.**  A user with a quote comes back as another, and a record without a
    password cannot be read. -/
theorem credentials_lost :
    (∃ next, sample.obfuscate "a\"b" "p" {} = .ok next ∧
        sample.deobfuscate next = .ok ("b", "p")) ∧
      ∃ next, sample.obfuscate "alice" "" {} = .ok next ∧
        sample.deobfuscate next = .error (.unparseable sample.path) := by
  constructor
  · obtain ⟨next, hstored⟩ := exists_obfuscate_sample "a\"b" "p"
    have hread := readText_of_obfuscate cryptor_sample hstored
    refine ⟨next, hstored, (deobfuscate_eq_ok cryptor_sample hread).mpr
      ⟨_, (Record.ofText?_toText_of_single (by decide)).mpr ⟨?_, .inr ⟨?_, ?_, rfl⟩⟩,
        toTextLossy_mask⟩⟩
    · exact ⟨Record.userName ++ " = \"a".toList, [], by decide,
        ⟨[], " = \"a".toList, by decide, by decide⟩, by decide, by decide, by decide⟩
    · exact Record.not_holdsMasked_of_notMem (by decide)
    · exact mask_eq_nil_iff.not.mpr (by decide)
  · obtain ⟨next, hstored⟩ := exists_obfuscate_sample "alice" ""
    have hread := readText_of_obfuscate cryptor_sample hstored
    refine ⟨next, hstored, deobfuscate_of_unparseable cryptor_sample hread ?_⟩
    rw [Option.eq_none_iff_forall_ne_some]
    intro record hrecord
    obtain ⟨-, hheld | ⟨-, hne, -⟩⟩ := (Record.ofText?_toText_of_single (by decide)).mp hrecord
    · exact Record.not_holdsMasked_of_notMem (by decide) _ hheld
    · exact hne (mask_eq_nil_iff.mpr rfl)

end Lockbox.Vault
