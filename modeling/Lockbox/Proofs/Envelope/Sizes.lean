import Lockbox.Proofs.Envelope.Suites

namespace Lockbox

/-!
# Sizes of keys and nonces

A cipher takes keys and nonces of one size.  It refuses others, cuts keys, and takes keys and nonces
from byte strings of any size as if they had the right one; where they have not, everything stops.
Here these checks are written out.  None of them ever fails: keys are derived with one size, nonces
are drawn with the size that the cipher asks for, and those of an envelope are looked at before.

* `Halt` — what could go wrong.
* `Suite.checkedCipher`, `Aead.checkNonce` — the checks of a cipher.
* `Codec.checkedWrap`, `checkedUnwrap` — wrapping and unwrapping with all checks.
* `Codec.checkedUnwrap_eq`, `run_checkedWrap` — no check fails.
-/

/-- Why wrapping or unwrapping ends early, with all checks. -/
inductive Halt
  /-- The envelope cannot be made or opened. -/
  | fault (error : EnvelopeError)
  /-- The cipher refuses the key. -/
  | keyRefused (size : Nat)
  /-- A key is cut that is shorter than what is to be left of it. -/
  | keyTooShort (size : Nat)
  /-- What is left of a key is no key of the cipher. -/
  | keyUnfit (size : Nat)
  /-- The cipher refuses the nonce. -/
  | nonceRefused (size : Nat)
  /-- A nonce is taken from a byte string of another size. -/
  | nonceUnfit (size : Nat)
  deriving DecidableEq, Repr

/-- Ends early unless something holds. -/
def Halt.unless (holds : Prop) [Decidable holds] (halt : Halt) : Except Halt Unit :=
  if holds then .ok () else .error halt

theorem Halt.unless_eq {holds : Prop} [Decidable holds] (h : holds) (halt : Halt) :
    halt.unless holds = .ok () := if_pos h

/-! ### The checks of a cipher -/

namespace Suite

/-- The first bytes of a key, which must not be shorter. -/
def cutKey (size : Nat) (key : Bytes) : Except Halt Bytes := do
  Halt.unless (size ≤ key.length) (.keyTooShort key.length)
  return key.take size

/-- A cipher under a key of the size that it takes. -/
def fitKey (cipher : Bytes → Aead) (size : Nat) (key : Bytes) : Except Halt Aead := do
  Halt.unless (key.length = size) (.keyUnfit key.length)
  return cipher key

/-- The cipher under a derived key, with all checks. -/
def checkedCipher (suite : Suite) (key : Bytes) : Except Halt Aead := do
  Halt.unless (key.length = keySize) (.keyRefused key.length)
  match suite with
  | aes256Gcm => fitKey Gcm.cipher 32 key
  | aes192Gcm => fitKey Gcm.cipher 24 (← cutKey 24 key)
  | chaCha20Poly1305 => fitKey ChaCha20Poly1305.cipher 32 key

theorem cutKey_eq {size : Nat} {key : Bytes} (h : size ≤ key.length) :
    cutKey size key = .ok (key.take size) := by
  rw [cutKey, Halt.unless_eq h, ok_bind]
  rfl

theorem fitKey_eq {size : Nat} {key : Bytes} (cipher : Bytes → Aead) (h : key.length = size) :
    fitKey cipher size key = .ok (cipher key) := by
  rw [fitKey, Halt.unless_eq h, ok_bind]
  rfl

/-- A derived key passes all checks. -/
theorem checkedCipher_eq (suite : Suite) (key : Key) :
    suite.checkedCipher key.toList = .ok (suite.aead key) := by
  have hkey : key.toList.length = keySize := Vector.length_toList
  have hlong : 24 ≤ key.toList.length := by rw [hkey]; decide
  unfold checkedCipher
  rw [Halt.unless_eq hkey, ok_bind]
  cases suite with
  | aes256Gcm => exact fitKey_eq Gcm.cipher hkey
  | chaCha20Poly1305 => exact fitKey_eq ChaCha20Poly1305.cipher hkey
  | aes192Gcm =>
    dsimp only
    rw [cutKey_eq hlong, ok_bind]
    exact fitKey_eq Gcm.cipher (List.length_take_of_le hlong)

end Suite

namespace Aead

/-- The checks of a nonce: other sizes are refused, and only then it is taken as one of the right
    size. -/
def checkNonce (aead : Aead) (nonce : Bytes) : Except Halt Unit := do
  Halt.unless (nonce.length = aead.nonceSize) (.nonceRefused nonce.length)
  Halt.unless (nonce.length = aead.nonceSize) (.nonceUnfit nonce.length)

theorem checkNonce_eq {aead : Aead} {nonce : Bytes} (h : nonce.length = aead.nonceSize) :
    aead.checkNonce nonce = .ok () := by
  rw [checkNonce, Halt.unless_eq h, Halt.unless_eq h, ok_bind]

end Aead

/-! ### Wrapping and unwrapping with all checks -/

namespace Codec

/-- Wraps a text under a password, with all checks. -/
def checkedWrap (suite : Suite) (registry : Registry) (saltSize : Nat) (password text : Bytes)
    (d : Derivation) : ExceptT Halt (StateM Entropy) Envelope := do
  let strategy ← (registry.resolve d).mapError (Halt.fault ∘ .derivation)
  let salt ← Entropy.draw saltSize
  let key ← (strategy password salt).mapError (Halt.fault ∘ .derivation)
  let aead ← suite.checkedCipher key.toList
  let nonce ← Entropy.draw aead.nonceSize
  aead.checkNonce nonce
  let data ← (aead.encrypt nonce text).mapError (Halt.fault ∘ .cipher)
  return { derivation := d.id, salt, nonce, data }

/-- Unwraps an envelope with a password, with all checks. -/
def checkedUnwrap (suite : Suite) (registry : Registry) (password : Bytes) (e : Envelope) :
    Except Halt (Bytes × Derivation) := do
  let d ← (Derivation.ofId? e.derivation).mapError (Halt.fault ∘ .derivation)
  let strategy ← (registry.resolve d).mapError (Halt.fault ∘ .derivation)
  let key ← (strategy password e.salt).mapError (Halt.fault ∘ .derivation)
  let aead ← suite.checkedCipher key.toList
  if e.nonce.length ≠ aead.nonceSize then
    throw (.fault (.nonceSize e.nonce.length aead.nonceSize))
  aead.checkNonce e.nonce
  let text ← (aead.decrypt e.nonce e.data).mapError (Halt.fault ∘ .cipher)
  return (text, d)

variable {codec : Codec} {suite : Suite}

/-- **No check fails while an envelope is unwrapped**: with all checks, this comes to what it comes
    to without them. -/
theorem checkedUnwrap_eq (hcipher : codec.cipher = suite.cipher) (password : Bytes)
    (e : Envelope) :
    checkedUnwrap suite codec.registry password e = (codec.unwrap password e).mapError .fault := by
  unfold checkedUnwrap
  rw [unwrap_eq hcipher, mapError_bind, mapError_mapError]
  refine bind_congr fun d => ?_
  rw [mapError_bind, mapError_mapError]
  refine bind_congr fun strategy => ?_
  rw [mapError_bind, mapError_mapError]
  refine bind_congr fun key => ?_
  rw [suite.checkedCipher_eq, ok_bind, suite.nonceSize_aead]
  by_cases hnonce : e.nonce.length = 12
  · have hcheck : (suite.aead key).checkNonce e.nonce = .ok () := Aead.checkNonce_eq hnonce
    rw [if_neg (not_not_intro hnonce), if_neg (not_not_intro hnonce), hcheck]
    dsimp only
    rw [ok_bind, mapError_bind, mapError_mapError]
    rfl
  · rw [if_pos hnonce, if_pos hnonce]
    rfl

/-- **No check fails while a text is wrapped**, and what is drawn is the same. -/
theorem run_checkedWrap (hcipher : codec.cipher = suite.cipher) (password text : Bytes)
    (d : Derivation) (entropy : Entropy) :
    (checkedWrap suite codec.registry codec.saltSize password text d).run entropy =
      (((codec.wrap password text d).run entropy).1.mapError .fault,
        ((codec.wrap password text d).run entropy).2) := by
  rcases hsalt : Entropy.draw codec.saltSize entropy with ⟨salt, salted⟩
  rcases hnonce : Entropy.draw 12 salted with ⟨nonce, drawn⟩
  have hsize : nonce.length = 12 := by
    rw [← (Prod.mk.inj hnonce).1, Entropy.length_piece]
  unfold checkedWrap wrap
  cases hresolve : codec.registry.resolve d with
  | error _ => rfl
  | ok strategy =>
    simp only [run_bind, run_liftM_except, run_liftM_state, mapError_ok, unlock_eq hcipher, hsalt]
    cases hkey : strategy password salt with
    | error _ => rfl
    | ok key =>
      have hcheck : (suite.aead key).checkNonce nonce = .ok () := Aead.checkNonce_eq hsize
      have haead : (Except.ok key : Except EnvelopeError Key).map suite.aead =
        .ok (suite.aead key) := rfl
      simp only [mapError_ok, suite.checkedCipher_eq, haead, suite.nonceSize_aead, hnonce, hcheck]
      cases (suite.aead key).encrypt nonce text with
      | error _ => rfl
      | ok data => rfl

end Codec

end Lockbox
