import Lockbox.Bytes

namespace Lockbox

/-!
# Authenticated ciphers

An `Aead` is an authenticated cipher bound to one key.  The ciphers of this library all have the
same shape, a `StreamMac`: the text is masked with a pad that depends on the nonce, and a tag of
sixteen bytes over the masked text is appended.  `Aead.ofStreamMac` builds the cipher from the pad
and the tag.

* `Aead.decrypt_encrypt` — what was encrypted decrypts again, under the same nonce.
* `Aead.encrypt_of_decrypt` — whatever decrypts is what encrypting the result gives.
-/

/-- Why a cipher refuses. -/
inductive CipherError
  /-- The key has this number of bytes, which is not what the cipher takes. -/
  | keySize (size : Nat)
  /-- The nonce to encrypt under has this number of bytes, which is not what the cipher takes. -/
  | nonceSize (size : Nat)
  /-- The ciphertext does not carry the right tag. -/
  | notAuthentic
  deriving DecidableEq, Repr

/-- The wording of a refusal. -/
def CipherError.message : CipherError → String
  | .keySize n => s!"Invalid key size: {n}"
  | .nonceSize n => s!"Encryption failed: invalid nonce size {n}"
  | .notAuthentic => "Authentication failed - wrong password, corrupted data or cipher mismatch"

/-- An authenticated cipher bound to one key. -/
structure Aead where
  /-- The number of bytes of a nonce. -/
  nonceSize : Nat
  /-- The ciphertext of a text under a nonce, tag included. -/
  encrypt : (nonce text : Bytes) → Except CipherError Bytes
  /-- The text that a ciphertext stands for under a nonce. -/
  decrypt : (nonce ciphertext : Bytes) → Except CipherError Bytes

/-- A stream cipher and a tag over its output, both under one key. -/
structure StreamMac where
  /-- The first bytes of the pad that a nonce stands for, at least as many as asked for. -/
  pad : (nonce : Bytes) → (size : Nat) → Bytes
  /-- The tag over a masked text. -/
  tag : (nonce masked : Bytes) → Vector UInt8 16
  /-- The pad is long enough. -/
  le_length_pad : ∀ nonce size, size ≤ (pad nonce size).length

namespace StreamMac

variable (m : StreamMac)

/-- Masks a text, or unmasks it. -/
def mask (nonce text : Bytes) : Bytes := text.xor (m.pad nonce text.length)

@[simp] theorem length_mask (nonce text : Bytes) : (m.mask nonce text).length = text.length := by
  simp [mask, Nat.min_eq_left (m.le_length_pad nonce text.length)]

@[simp] theorem mask_mask (nonce text : Bytes) : m.mask nonce (m.mask nonce text) = text := by
  rw [mask, length_mask]
  exact Bytes.xor_xor (m.le_length_pad nonce text.length)

end StreamMac

namespace Aead

/-- The number of bytes of a tag. -/
def tagSize : Nat := 16

/-- The cipher that masks a text and appends the tag.  Nothing can have been encrypted under a nonce
    of the wrong size, so decrypting reports it like any other forgery. -/
def ofStreamMac (nonceSize : Nat) (m : StreamMac) : Aead where
  nonceSize
  encrypt nonce text :=
    if nonce.length = nonceSize then
      let masked := m.mask nonce text
      .ok (masked ++ (m.tag nonce masked).toList)
    else .error (.nonceSize nonce.length)
  decrypt nonce ciphertext :=
    let masked := ciphertext.take (ciphertext.length - tagSize)
    let tag := ciphertext.drop (ciphertext.length - tagSize)
    if nonce.length = nonceSize ∧ tag = (m.tag nonce masked).toList then
      .ok (m.mask nonce masked)
    else .error .notAuthentic

variable {nonceSize : Nat} {m : StreamMac} {nonce text ciphertext : Bytes}

/-- What was encrypted decrypts again, under the same nonce. -/
theorem decrypt_encrypt (h : (ofStreamMac nonceSize m).encrypt nonce text = .ok ciphertext) :
    (ofStreamMac nonceSize m).decrypt nonce ciphertext = .ok text := by
  simp only [ofStreamMac] at h ⊢
  split at h
  · rename_i hn
    simp only [Except.ok.injEq] at h
    subst h
    simp [hn, tagSize]
  · simp at h

/-- Whatever decrypts is what encrypting the result gives. -/
theorem encrypt_of_decrypt (h : (ofStreamMac nonceSize m).decrypt nonce ciphertext = .ok text) :
    (ofStreamMac nonceSize m).encrypt nonce text = .ok ciphertext := by
  simp only [ofStreamMac] at h ⊢
  split at h
  · rename_i hn
    simp only [Except.ok.injEq] at h
    subst h
    simp [hn.1, ← hn.2]
  · simp at h

end Aead

end Lockbox
