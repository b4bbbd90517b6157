import Lockbox.Cipher.Gcm
import Lockbox.Cipher.ChaCha20Poly1305

namespace Lockbox

/-!
# Cipher suites

An envelope does not record its cipher: the suite is chosen once for a whole session, and sealing
and opening have to agree on it.
-/

/-- The number of bytes of a derived key. -/
def keySize : Nat := 32

/-- The authenticated ciphers that a session can choose from. -/
inductive Suite
  | aes256Gcm
  | aes192Gcm
  | chaCha20Poly1305
  deriving DecidableEq, Repr

namespace Suite

/-- The suite that a selector names: none or an empty one is AES-256-GCM, `AES192` is AES-192-GCM
    and anything else is ChaCha20-Poly1305. -/
def ofSelector : Option String → Suite
  | none => aes256Gcm
  | some "" => aes256Gcm
  | some "AES192" => aes192Gcm
  | some _ => chaCha20Poly1305

/-- The customary name of a suite. -/
def name : Suite → String
  | aes256Gcm => "AES-256-GCM"
  | aes192Gcm => "AES-192-GCM"
  | chaCha20Poly1305 => "ChaCha20-Poly1305"

/-- The cipher under a derived key, of which AES-192 uses only the first 24 bytes. -/
def cipher (suite : Suite) (key : Bytes) : Except CipherError Aead :=
  if key.length = keySize then
    match suite with
    | aes256Gcm => .ok (Gcm.cipher key)
    | aes192Gcm => .ok (Gcm.cipher (key.take 24))
    | chaCha20Poly1305 => .ok (ChaCha20Poly1305.cipher key)
  else .error (.keySize key.length)

end Suite

end Lockbox
