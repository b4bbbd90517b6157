import Lockbox.Derivation.Registry
import Lockbox.Entropy
import Lockbox.Envelope.Basic

namespace Lockbox

/-!
# Wrapping texts in envelopes

A `Codec` turns a text into an envelope under a password, with a fresh salt and a fresh nonce, and
back.  The envelope names the derivation, so unwrapping needs no more than the password; the cipher
is the codec's own.

* `Codec.wrap`, `Codec.unwrap` — between texts and envelopes.
* `Codec.encrypt`, `Codec.decrypt` — between texts and envelopes as bytes.
-/

/-- Why an envelope cannot be made or opened. -/
inductive EnvelopeError
  /-- The text does not describe an envelope. -/
  | malformed
  /-- The nonce has `actual` bytes where the cipher takes `expected`. -/
  | nonceSize (actual expected : Nat)
  /-- No key can be derived. -/
  | derivation (error : DerivationError)
  /-- The cipher refuses. -/
  | cipher (error : CipherError)
  deriving DecidableEq, Repr

/-- The wording of a failure. -/
def EnvelopeError.message : EnvelopeError → String
  | malformed => "Envelope malformed"
  | nonceSize actual expected =>
    s!"Envelope malformed: nonce has {actual} bytes, cipher expects {expected}"
  | derivation error => error.message
  | cipher error => error.message

/-- How texts are wrapped. -/
structure Codec where
  /-- The derivations that can be used. -/
  registry : Registry
  /-- The cipher under a derived key. -/
  cipher : Bytes → Except CipherError Aead
  /-- The number of bytes of a fresh salt. -/
  saltSize : Nat := 16

namespace Codec

/-- The codec of a cipher suite, with all derivations. -/
def ofSuite (suite : Suite) : Codec := { registry := .standard, cipher := suite.cipher }

/-- The cipher under the key that a derivation makes of a password and a salt. -/
def unlock (codec : Codec) (strategy : Strategy) (password salt : Bytes) :
    Except EnvelopeError Aead := do
  let key ← (strategy password salt).mapError .derivation
  (codec.cipher key.toList).mapError .cipher

/-- Wraps a text under a password. -/
def wrap (codec : Codec) (password text : Bytes) (d : Derivation) :
    ExceptT EnvelopeError (StateM Entropy) Envelope := do
  let strategy ← (codec.registry.resolve d).mapError EnvelopeError.derivation
  let salt ← Entropy.draw codec.saltSize
  let aead ← codec.unlock strategy password salt
  let nonce ← Entropy.draw aead.nonceSize
  let data ← (aead.encrypt nonce text).mapError EnvelopeError.cipher
  return { derivation := d.id, salt, nonce, data }

/-- Unwraps an envelope with a password: the text, and the derivation that was used. -/
def unwrap (codec : Codec) (password : Bytes) (e : Envelope) :
    Except EnvelopeError (Bytes × Derivation) := do
  let d ← (Derivation.ofId? e.derivation).mapError .derivation
  let strategy ← (codec.registry.resolve d).mapError .derivation
  let aead ← codec.unlock strategy password e.salt
  if e.nonce.length ≠ aead.nonceSize then
    throw (.nonceSize e.nonce.length aead.nonceSize)
  let text ← (aead.decrypt e.nonce e.data).mapError .cipher
  return (text, d)

/-- Wraps a text and writes the envelope down. -/
def encrypt (codec : Codec) (password text : Bytes) (d : Derivation) :
    ExceptT EnvelopeError (StateM Entropy) Bytes := do
  return (← codec.wrap password text d).toBytes

/-- Reads an envelope and unwraps it. -/
def decrypt (codec : Codec) (password sealed : Bytes) :
    Except EnvelopeError (Bytes × Derivation) := do
  match Envelope.ofBytes? sealed with
  | some e => codec.unwrap password e
  | none => throw .malformed

end Codec

end Lockbox
