import Lockbox.Proofs.Envelope
import Lockbox.Proofs.Envelope.Sizes

namespace Lockbox

/-!
# Stages of decrypting

Decrypting reads an envelope, looks up the derivation that it names, looks up the strategy for the
derivation, derives a key, looks at the size of the nonce and asks the cipher whether the data is
authentic.  The first of these stages that fails decides what comes of it, and nothing else does.

* `Derivation.ids`, `ofId?_eq_ok_iff` — what a derivation may be called.
* `Codec.Yields` — what decrypting comes to, with each stage said without the code.
* `Codec.Yields.total`, `Yields.decrypt_eq` — there is always one outcome, and it is the one.
* `Codec.first_broken_stage_decides` — what decrypting comes to, and that no check of a size fails.
-/

/-! ### Identifiers -/

namespace Derivation

/-- What a derivation may be called: its identifier of today comes first. -/
def ids : Derivation → List String
  | sha256Double => ["sha256-double", "sha256"]
  | argon2id => ["argon2id", "argon2"]
  | scrypt => ["scrypt"]

/-- An identifier stands for the derivation that may be called so. -/
theorem ofId?_eq_ok_iff {id : String} {d : Derivation} : ofId? id = .ok d ↔ id ∈ d.ids := by
  constructor
  · intro h
    unfold ofId? at h
    split at h
    · rename_i hid
      obtain rfl := Except.ok.inj h
      rcases hid with rfl | rfl <;> decide
    · split at h
      · rename_i hid
        obtain rfl := Except.ok.inj h
        rcases hid with rfl | rfl <;> decide
      · split at h
        · rename_i hid
          obtain rfl := Except.ok.inj h
          rw [hid]
          decide
        · cases h
  · intro h
    cases d with
    | sha256Double | argon2id | scrypt =>
      simp only [ids, List.mem_cons, List.not_mem_nil, or_false] at h
      rcases h with rfl | rfl <;> rfl

/-- An identifier that no derivation has is unknown. -/
theorem ofId?_of_forall_notMem {id : String} (h : ∀ d : Derivation, id ∉ d.ids) :
    ofId? id = .error (.unknown id) := by
  have hsha : ¬ (id = "sha256-double" ∨ id = "sha256") := by simpa [ids] using h sha256Double
  have hargon : ¬ (id = "argon2id" ∨ id = "argon2") := by simpa [ids] using h argon2id
  have hscrypt : ¬ id = "scrypt" := by simpa [ids] using h scrypt
  rw [ofId?, if_neg hsha, if_neg hargon, if_neg hscrypt]

end Derivation

/-- The strategy for a derivation is the one that is registered. -/
theorem Registry.resolve_of_some {registry : Registry} {d : Derivation} {strategy : Strategy}
    (h : registry.strategy? d = some strategy) : registry.resolve d = .ok strategy := by
  rw [resolve, h]

/-- A derivation without a strategy is unknown. -/
theorem Registry.resolve_of_none {registry : Registry} {d : Derivation}
    (h : registry.strategy? d = none) : registry.resolve d = .error (.unknown d.id) := by
  rw [resolve, h]

/-! ### Outcomes -/

namespace Codec

/-- What comes of stored bytes under a password: the fault of the first stage that fails, or the
    text and the derivation if none does.  A text comes of an envelope only if the cipher makes the
    data of it. -/
inductive Yields (suite : Suite) (registry : Registry) (password stored : Bytes) :
    Except EnvelopeError (Bytes × Derivation) → Prop
  /-- The bytes are no envelope. -/
  | malformed (hread : Envelope.ofBytes? stored = none) :
    Yields suite registry password stored (.error .malformed)
  /-- No derivation has the identifier, which the fault names as it is stored. -/
  | unknown {e : Envelope} (hread : Envelope.ofBytes? stored = some e)
      (hid : ∀ d : Derivation, e.derivation ∉ d.ids) :
    Yields suite registry password stored (.error (.derivation (.unknown e.derivation)))
  /-- The derivation has no strategy; the fault names it by its identifier of today. -/
  | unregistered {e : Envelope} {d : Derivation} (hread : Envelope.ofBytes? stored = some e)
      (hid : e.derivation ∈ d.ids) (hstrategy : registry.strategy? d = none) :
    Yields suite registry password stored (.error (.derivation (.unknown d.id)))
  /-- The strategy fails. -/
  | underived {e : Envelope} {d : Derivation} {strategy : Strategy} {cause : DerivationError}
      (hread : Envelope.ofBytes? stored = some e) (hid : e.derivation ∈ d.ids)
      (hstrategy : registry.strategy? d = some strategy)
      (hkey : strategy password e.salt = .error cause) :
    Yields suite registry password stored (.error (.derivation cause))
  /-- The nonce has the wrong size. -/
  | nonceSize {e : Envelope} {d : Derivation} {strategy : Strategy} {key : Key}
      (hread : Envelope.ofBytes? stored = some e) (hid : e.derivation ∈ d.ids)
      (hstrategy : registry.strategy? d = some strategy)
      (hkey : strategy password e.salt = .ok key) (hnonce : e.nonce.length ≠ 12) :
    Yields suite registry password stored (.error (.nonceSize e.nonce.length 12))
  /-- The data is not what the cipher makes of any text. -/
  | forged {e : Envelope} {d : Derivation} {strategy : Strategy} {key : Key}
      (hread : Envelope.ofBytes? stored = some e) (hid : e.derivation ∈ d.ids)
      (hstrategy : registry.strategy? d = some strategy)
      (hkey : strategy password e.salt = .ok key) (hnonce : e.nonce.length = 12)
      (hforged : ∀ text, (suite.aead key).encrypt e.nonce text ≠ .ok e.data) :
    Yields suite registry password stored (.error (.cipher .notAuthentic))
  /-- The data is what the cipher makes of the text. -/
  | opened {e : Envelope} {d : Derivation} {strategy : Strategy} {key : Key} {text : Bytes}
      (hread : Envelope.ofBytes? stored = some e) (hid : e.derivation ∈ d.ids)
      (hstrategy : registry.strategy? d = some strategy)
      (hkey : strategy password e.salt = .ok key) (hnonce : e.nonce.length = 12)
      (hdata : (suite.aead key).encrypt e.nonce text = .ok e.data) :
    Yields suite registry password stored (.ok (text, d))

/-- Something always comes of it. -/
theorem Yields.total (suite : Suite) (registry : Registry) (password stored : Bytes) :
    ∃ result, Yields suite registry password stored result := by
  cases hread : Envelope.ofBytes? stored with
  | none => exact ⟨_, .malformed hread⟩
  | some e =>
    by_cases hid : ∃ d : Derivation, e.derivation ∈ d.ids
    · obtain ⟨d, hid⟩ := hid
      cases hstrategy : registry.strategy? d with
      | none => exact ⟨_, .unregistered hread hid hstrategy⟩
      | some strategy =>
        cases hkey : strategy password e.salt with
        | error cause => exact ⟨_, .underived hread hid hstrategy hkey⟩
        | ok key =>
          by_cases hnonce : e.nonce.length = 12
          · by_cases hdata : ∃ text, (suite.aead key).encrypt e.nonce text = .ok e.data
            · obtain ⟨text, hdata⟩ := hdata
              exact ⟨_, .opened hread hid hstrategy hkey hnonce hdata⟩
            · exact ⟨_, .forged hread hid hstrategy hkey hnonce (not_exists.mp hdata)⟩
          · exact ⟨_, .nonceSize hread hid hstrategy hkey hnonce⟩
    · exact ⟨_, .unknown hread (not_exists.mp hid)⟩

/-- An envelope is unwrapped once its bytes have been read. -/
theorem decrypt_of_ofBytes? (codec : Codec) (password : Bytes) {stored : Bytes} {e : Envelope}
    (h : Envelope.ofBytes? stored = some e) :
    codec.decrypt password stored = codec.unwrap password e := by
  rw [decrypt, h]

section

variable {codec : Codec} {suite : Suite} (hcipher : codec.cipher = suite.cipher)
  {password : Bytes}

include hcipher

/-- Once a key has been derived, the nonce and the cipher decide. -/
theorem unwrap_of_key {e : Envelope} {d : Derivation} {strategy : Strategy} {key : Key}
    (hid : e.derivation ∈ d.ids) (hstrategy : codec.registry.strategy? d = some strategy)
    (hkey : strategy password e.salt = .ok key) :
    codec.unwrap password e =
      if e.nonce.length ≠ 12 then .error (.nonceSize e.nonce.length 12)
      else (((suite.aead key).decrypt e.nonce e.data).mapError .cipher).map (·, d) := by
  rw [unwrap_eq hcipher, Derivation.ofId?_eq_ok_iff.mpr hid, mapError_ok, ok_bind,
    Registry.resolve_of_some hstrategy, mapError_ok, ok_bind, hkey, mapError_ok, ok_bind]
  split
  · rfl
  · cases (suite.aead key).decrypt e.nonce e.data <;> rfl

/-- What a stage says is what decrypting comes to. -/
theorem Yields.decrypt_eq {stored : Bytes} {result : Except EnvelopeError (Bytes × Derivation)}
    (h : Yields suite codec.registry password stored result) :
    codec.decrypt password stored = result := by
  cases h with
  | malformed hread =>
    rw [decrypt, hread]
    rfl
  | unknown hread hid =>
    rw [decrypt_of_ofBytes? codec password hread, unwrap_eq hcipher,
      Derivation.ofId?_of_forall_notMem hid]
    rfl
  | unregistered hread hid hstrategy =>
    rw [decrypt_of_ofBytes? codec password hread, unwrap_eq hcipher,
      Derivation.ofId?_eq_ok_iff.mpr hid, mapError_ok, ok_bind,
      Registry.resolve_of_none hstrategy]
    rfl
  | underived hread hid hstrategy hkey =>
    rw [decrypt_of_ofBytes? codec password hread, unwrap_eq hcipher,
      Derivation.ofId?_eq_ok_iff.mpr hid, mapError_ok, ok_bind,
      Registry.resolve_of_some hstrategy, mapError_ok, ok_bind, hkey]
    rfl
  | nonceSize hread hid hstrategy hkey hnonce =>
    rw [decrypt_of_ofBytes? codec password hread, unwrap_of_key hcipher hid hstrategy hkey,
      if_pos hnonce]
  | forged hread hid hstrategy hkey hnonce hforged =>
    rw [decrypt_of_ofBytes? codec password hread, unwrap_of_key hcipher hid hstrategy hkey,
      if_neg (not_not_intro hnonce), Suite.aead, Aead.decrypt_eq_error_iff.mpr ⟨rfl, hforged⟩]
    rfl
  | opened hread hid hstrategy hkey hnonce hdata =>
    rw [decrypt_of_ofBytes? codec password hread, unwrap_of_key hcipher hid hstrategy hkey,
      if_neg (not_not_intro hnonce), Suite.aead, Aead.decrypt_eq_ok_iff.mpr hdata]
    rfl

/-- What decrypting comes to is what the first broken stage says, if there is one. -/
theorem decrypt_eq_iff {stored : Bytes} {result : Except EnvelopeError (Bytes × Derivation)} :
    codec.decrypt password stored = result ↔
      Yields suite codec.registry password stored result := by
  obtain ⟨found, hfound⟩ := Yields.total suite codec.registry password stored
  refine ⟨fun h => ?_, Yields.decrypt_eq hcipher⟩
  rw [← h, hfound.decrypt_eq hcipher]
  exact hfound

/-- The cipher refuses nothing but forgeries, whatever envelope is unwrapped. -/
theorem unwrap_eq_cipher_error {e : Envelope} {cause : CipherError}
    (h : codec.unwrap password e = .error (.cipher cause)) : cause = .notAuthentic := by
  rw [← decrypt_of_ofBytes? codec password e.ofBytes?_toBytes, decrypt_eq_iff hcipher] at h
  cases h
  rfl

/-- The cipher refuses nothing that is wrapped. -/
theorem wrap_ne_cipher_error {text : Bytes} {d : Derivation} {entropy : Entropy}
    (cause : CipherError) : ((codec.wrap password text d).run entropy).1 ≠ .error (.cipher cause) := by
  intro h
  have hcodec : codec.Reversible := by
    intro key
    rw [hcipher]
    exact cipher_ofSuite suite key
  have hencrypt : (codec.encrypt password text d).run entropy = (.error (.cipher cause), _) :=
    run_bind_of_error (Prod.ext h rfl)
  obtain ⟨_, -, hcause⟩ := (encrypt_eq_error hcodec).mp (congrArg Prod.fst hencrypt)
  cases hcause

end

/-- **Decrypting fails at the first broken stage and never otherwise**, with whatever strategies and
    passwords, and whatever bytes are stored.  And all checks of sizes hold, whatever is wrapped or
    unwrapped: with the checks of the cipher written out, wrapping and unwrapping come to what they
    come to without them, so that no key and no nonce of another size gets to the cipher. -/
theorem first_broken_stage_decides (suite : Suite) (registry : Registry) (saltSize : Nat)
    (password : Bytes) :
    let codec : Codec := { registry, cipher := suite.cipher, saltSize }
    (∀ stored result, codec.decrypt password stored = result ↔
      Yields suite registry password stored result) ∧
    (∀ e, checkedUnwrap suite registry password e = (codec.unwrap password e).mapError .fault ∧
      ∀ size, codec.unwrap password e ≠ .error (.cipher (.keySize size)) ∧
        codec.unwrap password e ≠ .error (.cipher (.nonceSize size))) ∧
    ∀ text d entropy,
      let wrapped := (codec.wrap password text d).run entropy
      (checkedWrap suite registry saltSize password text d).run entropy =
        (wrapped.1.mapError .fault, wrapped.2) ∧
      ∀ size, wrapped.1 ≠ .error (.cipher (.keySize size)) ∧
        wrapped.1 ≠ .error (.cipher (.nonceSize size)) := by
  intro codec
  have hcipher : codec.cipher = suite.cipher := rfl
  refine ⟨fun stored result => decrypt_eq_iff hcipher, fun e => ?_, fun text d entropy => ?_⟩
  · refine ⟨checkedUnwrap_eq hcipher password e, fun size => ⟨fun h => ?_, fun h => ?_⟩⟩
    · cases unwrap_eq_cipher_error hcipher h
    · cases unwrap_eq_cipher_error hcipher h
  · exact ⟨run_checkedWrap hcipher password text d entropy, fun size =>
      ⟨wrap_ne_cipher_error hcipher (.keySize size), wrap_ne_cipher_error hcipher (.nonceSize size)⟩⟩

/-- An unknown identifier is reported first, although the nonce has the wrong size as well. -/
example : (ofSuite .aes192Gcm).decrypt [] (Envelope.toBytes
    { derivation := "bcrypt", salt := [], nonce := [1], data := [] }) =
      .error (.derivation (.unknown "bcrypt")) := by
  have hcipher : (ofSuite .aes192Gcm).cipher = Suite.cipher .aes192Gcm := rfl
  refine Yields.decrypt_eq hcipher (.unknown (Envelope.ofBytes?_toBytes _) fun d => ?_)
  cases d <;> decide

end Codec

end Lockbox
