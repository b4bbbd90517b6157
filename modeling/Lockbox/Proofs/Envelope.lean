import Lockbox.Envelope.Codec
import Lockbox.Proofs.Encoding.Base64
import Lockbox.Proofs.Json.Fields
import Lockbox.Proofs.Steps

namespace Lockbox

/-!
# Envelopes opened again

An envelope reads back from its text, and a text that a codec has wrapped under a password comes out
again under the same password, with the derivation it was wrapped with.

* `Envelope.ofBytes?_toBytes` — envelopes as texts.
* `Codec.Works` — a codec that wraps every text so that it can be unwrapped.
* `Codec.Reversible`, `Codec.exists_encrypt` — what it takes of ciphers, once there is a key.
* `Codec.works_of_parts` — what it takes of strategies and ciphers.
* `Codec.works_ofSuite` — the codec of a cipher suite is one.
* `Codec.decrypt_of_encrypt` — the same with any strategies, some of which may fail.
-/

/-! ### Envelopes as texts -/

namespace Envelope

/-- A byte string reads back from a field. -/
theorem bytesOfJson?_bytesToJson (b : Bytes) : bytesOfJson? (some (bytesToJson b)) = some b := by
  rw [bytesOfJson?, bytesToJson, Json.required?_ofText]
  show Base64.decode? (String.ofList (Base64.encode b)).toList = some b
  rw [String.toList_ofList, Base64.decode?_encode]

theorem toJson_eq (e : Envelope) :
    e.toJson = .object ([("PbKdf", Json.ofText e.derivation), ("Salt", bytesToJson e.salt),
      ("Nonce", bytesToJson e.nonce), ("Data", bytesToJson e.data)].map
        fun member => (Json.TextUnit.ofText member.1, member.2)) := rfl

/-- An envelope can be written. -/
theorem readable_toJson (e : Envelope) : e.toJson.Readable := by
  rw [toJson_eq]
  refine Json.readable_object fun member hmem => ?_
  simp only [List.mem_cons, List.not_mem_nil, or_false] at hmem
  rcases hmem with rfl | rfl | rfl | rfl <;> exact Json.readable_ofText _

/-- **An envelope reads back.** -/
theorem ofBytes?_toBytes (e : Envelope) : ofBytes? e.toBytes = some e := by
  have hfields : e.toJson.fields? fieldNames =
      some [some (Json.ofText e.derivation), some (bytesToJson e.salt), some (bytesToJson e.nonce),
        some (bytesToJson e.data)] := by
    rw [toJson_eq]
    exact Json.fields?_object (show fieldNames.Nodup by decide)
  rw [ofBytes?, toBytes, Json.parse?_print (.indented 2) e.readable_toJson]
  show ofJson? e.toJson = some e
  rw [ofJson?, hfields]
  simp only [Option.bind_eq_bind, Option.bind_some, Json.required?_ofText, bytesOfJson?_bytesToJson]
  rfl

end Envelope

/-! ### Wrapping and unwrapping -/

namespace Codec

/-- Whatever the password, the text, the derivation and the randomness are, the codec wraps the
    text, and unwraps it again under the password. -/
def Works (codec : Codec) : Prop :=
  ∀ password text d entropy, ∃ stored rest,
    (codec.encrypt password text d).run entropy = (.ok stored, rest) ∧
      codec.decrypt password stored = .ok (text, d)

/-- Under a password and a salt that a strategy makes a key of, the codec has a cipher. -/
theorem unlock_eq_ok {codec : Codec} {strategy : Strategy} {password salt : Bytes} {key : Key}
    {aead : Aead} (hkey : strategy password salt = .ok key)
    (haead : codec.cipher key.toList = .ok aead) :
    codec.unlock strategy password salt = .ok aead := by
  rw [unlock, hkey]
  show (codec.cipher key.toList).mapError EnvelopeError.cipher = _
  rw [haead]
  rfl

/-- What wrapping a text comes to when nothing fails. -/
theorem run_wrap {codec : Codec} {password text data : Bytes} {d : Derivation}
    {strategy : Strategy} {aead : Aead} {salt nonce : Bytes} {entropy salted drawn : Entropy}
    (hresolve : codec.registry.resolve d = .ok strategy)
    (hsalt : Entropy.draw codec.saltSize entropy = (salt, salted))
    (hunlock : codec.unlock strategy password salt = .ok aead)
    (hnonce : Entropy.draw aead.nonceSize salted = (nonce, drawn))
    (hdata : aead.encrypt nonce text = .ok data) :
    (codec.wrap password text d).run entropy =
      (.ok { derivation := d.id, salt, nonce, data }, drawn) := by
  unfold wrap
  simp only [run_bind, run_liftM_except, run_liftM_state, hresolve, mapError_ok, hsalt, hunlock,
    hnonce, hdata]
  rfl

/-- What it takes to wrap a text, and the envelope that comes of it. -/
theorem exists_of_run_encrypt {codec : Codec} {password text stored : Bytes} {d : Derivation}
    {entropy rest : Entropy}
    (h : (codec.encrypt password text d).run entropy = (.ok stored, rest)) :
    ∃ strategy aead data, codec.registry.resolve d = .ok strategy ∧
      codec.unlock strategy password (Entropy.draw codec.saltSize entropy).1 = .ok aead ∧
      aead.encrypt (Entropy.draw aead.nonceSize (Entropy.draw codec.saltSize entropy).2).1 text =
        .ok data ∧
      rest = (Entropy.draw aead.nonceSize (Entropy.draw codec.saltSize entropy).2).2 ∧
      Envelope.ofBytes? stored = some {
        derivation := d.id
        salt := (Entropy.draw codec.saltSize entropy).1
        nonce := (Entropy.draw aead.nonceSize (Entropy.draw codec.saltSize entropy).2).1
        data } := by
  obtain ⟨e, wrapped, hwrap, hstored⟩ := run_bind_eq_ok.mp h
  obtain ⟨hbytes, rfl⟩ := Prod.mk.inj hstored
  obtain rfl := Except.ok.inj hbytes
  -- The steps of wrapping, in their order.
  obtain ⟨strategy, _, hfound, hsalting⟩ := run_bind_eq_ok.mp hwrap
  obtain ⟨hresolve, rfl⟩ := run_liftM_except_eq_ok.mp hfound
  obtain ⟨salt, salted, hsalt, hunlocking⟩ := run_bind_eq_ok.mp hsalting
  obtain ⟨rfl, rfl⟩ := Prod.mk.inj (run_liftM_state_eq_ok.mp hsalt)
  obtain ⟨aead, _, hopened, hnoncing⟩ := run_bind_eq_ok.mp hunlocking
  obtain ⟨hunlock, rfl⟩ := run_liftM_except_eq_ok.mp hopened
  obtain ⟨nonce, drawn, hnonce, hlast⟩ := run_bind_eq_ok.mp hnoncing
  obtain ⟨rfl, rfl⟩ := Prod.mk.inj (run_liftM_state_eq_ok.mp hnonce)
  obtain ⟨data, _, hencrypted, hresult⟩ := run_bind_eq_ok.mp hlast
  obtain ⟨hdata, rfl⟩ := run_liftM_except_eq_ok.mp hencrypted
  obtain ⟨he, rfl⟩ := Prod.mk.inj hresult
  obtain rfl := Except.ok.inj he
  exact ⟨strategy, aead, data, mapError_eq_ok.mp hresolve, hunlock, mapError_eq_ok.mp hdata, rfl,
    Envelope.ofBytes?_toBytes _⟩

/-- Unwrapping what was wrapped. -/
theorem unwrap_eq_ok {codec : Codec} {password text data salt nonce : Bytes} {d : Derivation}
    {strategy : Strategy} {aead : Aead} (hresolve : codec.registry.resolve d = .ok strategy)
    (hunlock : codec.unlock strategy password salt = .ok aead)
    (hnonce : nonce.length = aead.nonceSize) (hdata : aead.decrypt nonce data = .ok text) :
    codec.unwrap password { derivation := d.id, salt, nonce, data } = .ok (text, d) := by
  unfold unwrap
  simp only [Derivation.ofId?_id, hresolve, mapError_ok, ok_bind, hunlock, hdata]
  rw [if_neg (not_not_intro hnonce)]
  rfl

/-- Does a codec have a cipher for every key, which decrypts under a nonce what it encrypts under
    it? -/
def Reversible (codec : Codec) : Prop :=
  ∀ key : Key, ∃ aead, codec.cipher key.toList = .ok aead ∧
    ∀ nonce text, nonce.length = aead.nonceSize → ∃ ciphertext,
      aead.encrypt nonce text = .ok ciphertext ∧ aead.decrypt nonce ciphertext = .ok text

/-- The key that a codec makes of a password with the salt that it draws next. -/
def nextKey (codec : Codec) (password : Bytes) (d : Derivation) (entropy : Entropy) :
    Except DerivationError Key := do
  let strategy ← codec.registry.resolve d
  strategy password (Entropy.draw codec.saltSize entropy).1

/-- A text for which there is a key is wrapped, and comes out again under the same password. -/
theorem exists_encrypt {codec : Codec} (hcodec : codec.Reversible) {password : Bytes}
    {d : Derivation} {entropy : Entropy} {key : Key}
    (h : codec.nextKey password d entropy = .ok key) (text : Bytes) :
    ∃ stored rest, (codec.encrypt password text d).run entropy = (.ok stored, rest) ∧
      codec.decrypt password stored = .ok (text, d) := by
  -- The steps of wrapping, in their order: the strategy, the salt, the key, the cipher, the nonce
  -- and the ciphertext.
  obtain ⟨strategy, hresolve, hkey⟩ := bind_eq_ok.mp h
  rcases hsalt : Entropy.draw codec.saltSize entropy with ⟨salt, salted⟩
  rw [hsalt] at hkey
  obtain ⟨aead, haead, hencrypt⟩ := hcodec key
  rcases hnonce : Entropy.draw aead.nonceSize salted with ⟨nonce, drawn⟩
  have hnonceSize : nonce.length = aead.nonceSize := by
    rw [← (Prod.mk.inj hnonce).1, Entropy.length_piece]
  obtain ⟨data, hdata, htext⟩ := hencrypt nonce text hnonceSize
  -- The envelope keeps the salt, so unwrapping makes the same key.
  have hunlock := unlock_eq_ok hkey haead
  refine ⟨Envelope.toBytes { derivation := d.id, salt, nonce, data }, drawn, ?_, ?_⟩
  · unfold encrypt
    rw [run_bind_of_ok (run_wrap hresolve hsalt hunlock hnonce hdata)]
    rfl
  · rw [decrypt, Envelope.ofBytes?_toBytes]
    exact unwrap_eq_ok hresolve hunlock hnonceSize htext

/-- A text for which there is no key is not wrapped, for the reason that there is none. -/
theorem encrypt_of_nextKey_error {codec : Codec} {password : Bytes} {d : Derivation}
    {entropy : Entropy} {error : DerivationError}
    (h : codec.nextKey password d entropy = .error error) (text : Bytes) :
    ∃ rest, (codec.encrypt password text d).run entropy = (.error (.derivation error), rest) := by
  suffices hwrap : ∃ rest, (codec.wrap password text d).run entropy =
      (.error (.derivation error), rest) by
    obtain ⟨rest, hwrap⟩ := hwrap
    exact ⟨rest, run_bind_of_error hwrap⟩
  unfold nextKey at h
  cases hresolve : codec.registry.resolve d with
  | error unknown =>
    rw [hresolve] at h
    obtain rfl := Except.error.inj h
    refine ⟨entropy, ?_⟩
    unfold wrap
    simp only [run_bind, run_liftM_except, hresolve, mapError_error]
  | ok strategy =>
    rw [hresolve, ok_bind] at h
    rcases hsalt : Entropy.draw codec.saltSize entropy with ⟨salt, salted⟩
    rw [hsalt] at h
    have hunlock : codec.unlock strategy password salt = .error (.derivation error) := by
      unfold unlock
      rw [show strategy password salt = .error error from h]
      rfl
    refine ⟨salted, ?_⟩
    unfold wrap
    simp only [run_bind, run_liftM_except, run_liftM_state, hresolve, mapError_ok, hsalt, hunlock]

/-- A codec that has a strategy for every derivation which makes keys of all its salts, and whose
    ciphers take all those keys and decrypt what they encrypt, works. -/
theorem works_of_parts {codec : Codec}
    (hstrategy : ∀ d, ∃ strategy, codec.registry.resolve d = .ok strategy ∧
      ∀ password salt, salt.length = codec.saltSize → ∃ key, strategy password salt = .ok key)
    (hcodec : codec.Reversible) : codec.Works := by
  intro password text d entropy
  obtain ⟨strategy, hresolve, hkeys⟩ := hstrategy d
  have hsalt : (Entropy.draw codec.saltSize entropy).1.length = codec.saltSize :=
    Entropy.length_piece _ _ _
  obtain ⟨key, hkey⟩ := hkeys password _ hsalt
  exact exists_encrypt hcodec (bind_eq_ok.mpr ⟨strategy, hresolve, hkey⟩) text

/-- Every cipher of a suite decrypts what it encrypts. -/
theorem cipher_ofSuite (suite : Suite) (key : Key) :
    ∃ aead, suite.cipher key.toList = .ok aead ∧
      ∀ nonce text, nonce.length = aead.nonceSize → ∃ ciphertext,
        aead.encrypt nonce text = .ok ciphertext ∧ aead.decrypt nonce ciphertext = .ok text := by
  have hmac : ∀ (size : Nat) (m : StreamMac) (nonce text : Bytes),
      nonce.length = (Aead.ofStreamMac size m).nonceSize → ∃ ciphertext,
        (Aead.ofStreamMac size m).encrypt nonce text = .ok ciphertext ∧
          (Aead.ofStreamMac size m).decrypt nonce ciphertext = .ok text := by
    intro size m nonce text hnonce
    have hencrypt : (Aead.ofStreamMac size m).encrypt nonce text = .ok _ := if_pos hnonce
    exact ⟨_, hencrypt, Aead.decrypt_encrypt hencrypt⟩
  have hkey : key.toList.length = keySize := Vector.length_toList
  cases suite with
  | aes256Gcm => exact ⟨_, if_pos hkey, hmac 12 _⟩
  | aes192Gcm => exact ⟨_, if_pos hkey, hmac 12 _⟩
  | chaCha20Poly1305 => exact ⟨_, if_pos hkey, hmac 12 _⟩

/-- **The codec of a cipher suite works**, with all derivations. -/
theorem works_ofSuite (suite : Suite) : (ofSuite suite).Works := by
  apply works_of_parts
  · intro d
    cases d with
    | sha256Double => exact ⟨.sha256Double, rfl, fun password salt _ => ⟨_, rfl⟩⟩
    | scrypt => exact ⟨.scrypt, rfl, fun password salt _ => ⟨_, rfl⟩⟩
    | argon2id =>
      -- This one refuses short salts, but those that are drawn are long enough.
      refine ⟨.argon2id, rfl, fun password salt hsalt => ?_⟩
      have hlong : ¬ salt.length < 8 := by
        rw [hsalt]
        exact Nat.not_lt.mpr (show 8 ≤ 16 by decide)
      exact ⟨_, if_neg hlong⟩
  · exact cipher_ofSuite suite

/-! ### Any registry -/

section

variable {codec : Codec} {password text : Bytes} {d : Derivation} {entropy : Entropy}

/-- Whatever a text was wrapped into, it comes out again. -/
theorem decrypt_of_run_encrypt (hcodec : codec.Reversible) {stored : Bytes}
    (h : ((codec.encrypt password text d).run entropy).1 = .ok stored) :
    codec.decrypt password stored = .ok (text, d) := by
  cases hkey : codec.nextKey password d entropy with
  | ok key =>
    obtain ⟨other, rest, hencrypt, hdecrypt⟩ := exists_encrypt hcodec hkey text
    rw [hencrypt] at h
    obtain rfl := Except.ok.inj h
    exact hdecrypt
  | error cause =>
    obtain ⟨rest, hencrypt⟩ := encrypt_of_nextKey_error hkey text
    rw [hencrypt] at h
    cases h

/-- A text is not wrapped exactly if there is no key, and for the same reason. -/
theorem encrypt_eq_error (hcodec : codec.Reversible) {error : EnvelopeError} :
    ((codec.encrypt password text d).run entropy).1 = .error error ↔
      ∃ cause, codec.nextKey password d entropy = .error cause ∧ error = .derivation cause := by
  cases hkey : codec.nextKey password d entropy with
  | ok key =>
    obtain ⟨stored, rest, hencrypt, -⟩ := exists_encrypt hcodec hkey text
    rw [hencrypt]
    exact ⟨nofun, nofun⟩
  | error cause =>
    obtain ⟨rest, hencrypt⟩ := encrypt_of_nextKey_error hkey text
    rw [hencrypt, Except.error.injEq]
    constructor
    · intro h
      exact ⟨cause, rfl, h.symm⟩
    · rintro ⟨other, hother, rfl⟩
      rw [Except.error.inj hother]

/-- No key is made where no strategy is registered, or where the strategy fails. -/
theorem nextKey_eq_error {error : DerivationError} :
    codec.nextKey password d entropy = .error error ↔
      codec.registry.strategy? d = none ∧ error = .unknown d.id ∨
        ∃ strategy, codec.registry.strategy? d = some strategy ∧
          strategy password (Entropy.draw codec.saltSize entropy).1 = .error error := by
  unfold nextKey Registry.resolve
  cases codec.registry.strategy? d with
  | none =>
    dsimp only
    rw [error_bind, Except.error.injEq]
    constructor
    · intro h
      exact .inl ⟨rfl, h.symm⟩
    · rintro (⟨-, h⟩ | ⟨strategy, hstrategy, -⟩)
      · exact h.symm
      · cases hstrategy
  | some strategy =>
    dsimp only
    rw [ok_bind]
    constructor
    · intro h
      exact .inr ⟨strategy, rfl, h⟩
    · rintro (⟨hnone, -⟩ | ⟨other, hstrategy, h⟩)
      · cases hnone
      · obtain rfl := Option.some.inj hstrategy
        exact h

end

/-- **Decrypting undoes encrypting**, whatever strategies are registered and however long the salts
    are: what has been encrypted with a cipher suite decrypts under the same password to the same
    text and derivation, and encrypting fails exactly if no strategy is registered for the
    derivation, or with the error of the one that is. -/
theorem decrypt_of_encrypt (suite : Suite) (registry : Registry) (saltSize : Nat)
    (password text : Bytes) (d : Derivation) (entropy : Entropy) :
    let codec : Codec := { registry, cipher := suite.cipher, saltSize }
    let outcome := ((codec.encrypt password text d).run entropy).1
    let salt := (Entropy.draw saltSize entropy).1
    (∀ stored, outcome = .ok stored → codec.decrypt password stored = .ok (text, d)) ∧
      ∀ error, outcome = .error error ↔
        registry.strategy? d = none ∧ error = .derivation (.unknown d.id) ∨
          ∃ strategy cause, registry.strategy? d = some strategy ∧
            strategy password salt = .error cause ∧ error = .derivation cause := by
  intro codec outcome salt
  have hcodec : codec.Reversible := cipher_ofSuite suite
  have hfails : ∀ error, outcome = .error error ↔
      ∃ cause, codec.nextKey password d entropy = .error cause ∧ error = .derivation cause :=
    fun error => encrypt_eq_error hcodec
  refine ⟨fun stored hstored => decrypt_of_run_encrypt hcodec hstored, fun error => ?_⟩
  rw [hfails]
  constructor
  · rintro ⟨cause, hkey, rfl⟩
    rcases nextKey_eq_error.mp hkey with ⟨hnone, rfl⟩ | ⟨strategy, hstrategy, hcause⟩
    · exact .inl ⟨hnone, rfl⟩
    · exact .inr ⟨strategy, cause, hstrategy, hcause, rfl⟩
  · rintro (⟨hnone, rfl⟩ | ⟨strategy, cause, hstrategy, hcause, rfl⟩)
    · exact ⟨_, nextKey_eq_error.mpr (.inl ⟨hnone, rfl⟩), rfl⟩
    · exact ⟨cause, nextKey_eq_error.mpr (.inr ⟨strategy, hstrategy, hcause⟩), rfl⟩

/-- A text encrypted with a single registered strategy and salts of three bytes. -/
theorem decrypt_of_encrypt_short_salt :
    let registry := Registry.empty.insert .sha256Double .sha256Double
    let codec : Codec := { registry, cipher := Suite.aes192Gcm.cipher, saltSize := 3 }
    let entropy : Entropy := ⟨fun _ => 0, 0⟩
    (∃ stored, ((codec.encrypt [112] [1, 2] .sha256Double).run entropy).1 = .ok stored ∧
        codec.decrypt [112] stored = .ok ([1, 2], .sha256Double)) ∧
      ((codec.encrypt [112] [1, 2] .scrypt).run entropy).1 =
        .error (.derivation (.unknown "scrypt")) := by
  intro registry codec entropy
  obtain ⟨hdecrypt, herror⟩ :=
    decrypt_of_encrypt .aes192Gcm registry 3 [112] [1, 2] .sha256Double entropy
  obtain ⟨-, hunknown⟩ := decrypt_of_encrypt .aes192Gcm registry 3 [112] [1, 2] .scrypt entropy
  refine ⟨?_, (hunknown _).mpr (.inl ⟨rfl, rfl⟩)⟩
  rcases houtcome : ((codec.encrypt [112] [1, 2] .sha256Double).run entropy).1 with error | stored
  · -- The strategy is registered, and it makes a key of every salt.
    rcases (herror error).mp houtcome with ⟨hnone, -⟩ | ⟨strategy, cause, hstrategy, hcause, -⟩
    · cases hnone
    · obtain rfl := Option.some.inj hstrategy
      cases hcause
  · exact ⟨stored, rfl, hdecrypt stored houtcome⟩

end Codec

end Lockbox
