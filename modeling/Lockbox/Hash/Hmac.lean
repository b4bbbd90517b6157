import Lockbox.Hash.Sha256

namespace Lockbox.Hmac

/-!
# HMAC and PBKDF2 with SHA-256

`mac` is the keyed hash of RFC 2104.  `expand` is PBKDF2 of RFC 8018 with a single iteration, the
form that scrypt stretches a password with.
-/

/-- A key as a block of 64 bytes: hashed first if it is longer. -/
def keyBlock (key : Bytes) : Bytes :=
  let short := if key.length > 64 then (Sha256.digest key).toList else key
  short ++ List.replicate (64 - short.length) 0

/-- The keyed hash of a message. -/
def mac (key message : Bytes) : Bytes :=
  let block := keyBlock key
  let inner := Sha256.digest (block.map (· ^^^ 0x36) ++ message)
  (Sha256.digest (block.map (· ^^^ 0x5c) ++ inner.toList)).toList

/-- The first `size` bytes of the keyed hashes of the salt followed by 1, 2, 3 and so on. -/
def expand (password salt : Bytes) (size : Nat) : Bytes :=
  ((List.range ((size + 31) / 32)).flatMap fun i =>
    mac password (salt ++ Bytes.ofNatBE 4 (i + 1))).take size

end Lockbox.Hmac
