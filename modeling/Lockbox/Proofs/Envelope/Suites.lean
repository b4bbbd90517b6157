import Lockbox.Envelope.Codec
import Lockbox.Proofs.Steps

namespace Lockbox

/-!
# The ciphers of the suites

All suites have ciphers of one shape: nonces of twelve bytes, and a ciphertext that is the masked
text with a tag after it.  So what decrypts is what encrypting gives, and nothing else does.

* `Aead.encrypt_eq_ok_iff`, `decrypt_eq_ok_iff`, `decrypt_eq_error_iff` — ciphers of this shape.
* `Aead.text_eq_mask` — the masked text tells the text.
* `Suite.aead`, `Suite.cipher_eq` — the cipher of a suite under a derived key.
* `Codec.unlock_eq`, `unwrap_eq` — unwrapping with it.
-/

namespace Aead

variable {nonceSize : Nat} {m : StreamMac} {nonce text ciphertext : Bytes}

/-- A ciphertext is the masked text with its tag after it. -/
theorem encrypt_eq_ok_iff :
    (ofStreamMac nonceSize m).encrypt nonce text = .ok ciphertext ↔
      nonce.length = nonceSize ∧
        ciphertext = m.mask nonce text ++ (m.tag nonce (m.mask nonce text)).toList := by
  dsimp only [ofStreamMac]
  split
  · rename_i hnonce
    rw [Except.ok.injEq]
    exact ⟨fun h => ⟨hnonce, h.symm⟩, fun h => h.2.symm⟩
  · rename_i hnonce
    exact ⟨nofun, fun h => absurd h.1 hnonce⟩

/-- What decrypts is what encrypting gives. -/
theorem decrypt_eq_ok_iff :
    (ofStreamMac nonceSize m).decrypt nonce ciphertext = .ok text ↔
      (ofStreamMac nonceSize m).encrypt nonce text = .ok ciphertext :=
  ⟨encrypt_of_decrypt, decrypt_encrypt⟩

/-- What encrypting does not give is a forgery, and there is no other reason not to decrypt. -/
theorem decrypt_eq_error_iff {error : CipherError} :
    (ofStreamMac nonceSize m).decrypt nonce ciphertext = .error error ↔
      error = .notAuthentic ∧
        ∀ text, (ofStreamMac nonceSize m).encrypt nonce text ≠ .ok ciphertext := by
  constructor
  · intro h
    refine ⟨?_, fun text htext => ?_⟩
    · dsimp only [ofStreamMac] at h
      split at h
      · cases h
      · exact (Except.error.inj h).symm
    · rw [decrypt_eq_ok_iff.mpr htext] at h
      cases h
  · rintro ⟨rfl, hforged⟩
    cases hdecrypt : (ofStreamMac nonceSize m).decrypt nonce ciphertext with
    | ok text => exact absurd (decrypt_eq_ok_iff.mp hdecrypt) (hforged text)
    | error error =>
      dsimp only [ofStreamMac] at hdecrypt
      split at hdecrypt
      · cases hdecrypt
      · exact hdecrypt.symm

/-- What stands before the tag tells the text. -/
theorem text_eq_mask {body tag : Bytes} (htag : tag.length = tagSize)
    (h : (ofStreamMac nonceSize m).encrypt nonce text = .ok (body ++ tag)) :
    text = m.mask nonce body ∧ body.length = text.length := by
  obtain ⟨-, hparts⟩ := encrypt_eq_ok_iff.mp h
  have hsize : tag.length = (m.tag nonce (m.mask nonce text)).toList.length := by
    rw [htag, Vector.length_toList]
    rfl
  obtain ⟨rfl, -⟩ := List.append_inj' hparts hsize
  rw [StreamMac.mask_mask, StreamMac.length_mask]
  exact ⟨rfl, rfl⟩

/-- Every ciphertext has a tag. -/
theorem exists_tag (h : (ofStreamMac nonceSize m).encrypt nonce text = .ok ciphertext) :
    ∃ body tag, ciphertext = body ++ tag ∧ tag.length = tagSize :=
  ⟨_, _, (encrypt_eq_ok_iff.mp h).2, Vector.length_toList⟩

end Aead

namespace Suite

/-- The stream cipher and the tag of a suite under a derived key. -/
def streamMac (suite : Suite) (key : Key) : StreamMac :=
  match suite with
  | aes256Gcm => Gcm.streamMac key.toList
  | aes192Gcm => Gcm.streamMac (key.toList.take 24)
  | chaCha20Poly1305 => ChaCha20Poly1305.streamMac key.toList

/-- The cipher of a suite under a derived key. -/
def aead (suite : Suite) (key : Key) : Aead := Aead.ofStreamMac 12 (suite.streamMac key)

@[simp] theorem nonceSize_aead (suite : Suite) (key : Key) : (suite.aead key).nonceSize = 12 := rfl

/-- Every derived key has the size that the suites ask for. -/
theorem cipher_eq (suite : Suite) (key : Key) : suite.cipher key.toList = .ok (suite.aead key) := by
  have hkey : key.toList.length = keySize := Vector.length_toList
  cases suite with
  | aes256Gcm | aes192Gcm | chaCha20Poly1305 => exact if_pos hkey

end Suite

namespace Codec

variable {codec : Codec} {suite : Suite}

/-- With the ciphers of a suite, a derived key is all it takes. -/
theorem unlock_eq (hcipher : codec.cipher = suite.cipher) (strategy : Strategy)
    (password salt : Bytes) :
    codec.unlock strategy password salt =
      ((strategy password salt).mapError .derivation).map suite.aead := by
  unfold unlock
  rw [hcipher]
  cases strategy password salt with
  | error _ => rfl
  | ok key =>
    rw [mapError_ok, ok_bind, suite.cipher_eq]
    rfl

/-- With the ciphers of a suite, unwrapping has six stages. -/
theorem unwrap_eq (hcipher : codec.cipher = suite.cipher) (password : Bytes) (e : Envelope) :
    codec.unwrap password e = do
      let d ← (Derivation.ofId? e.derivation).mapError EnvelopeError.derivation
      let strategy ← (codec.registry.resolve d).mapError EnvelopeError.derivation
      let key ← (strategy password e.salt).mapError EnvelopeError.derivation
      if e.nonce.length ≠ 12 then throw (.nonceSize e.nonce.length 12)
      let text ← ((suite.aead key).decrypt e.nonce e.data).mapError EnvelopeError.cipher
      return (text, d) := by
  unfold unwrap
  refine bind_congr fun d => bind_congr fun strategy => ?_
  rw [unlock_eq hcipher]
  cases strategy password e.salt with
  | error _ => rfl
  | ok key => rfl

end Codec

end Lockbox
