import Lockbox.Cipher.Aes
import Lockbox.Hash.Sha256

namespace Lockbox

/-!
# Eight-bit cipher feedback

AES-128 as a stream cipher that works byte by byte: each byte is masked with the first byte of the
encrypted register, and the ciphertext byte is shifted into the register.  There is no tag, so a
wrong key gives a wrong text and not an error.

* `Cfb8.encrypt` / `Cfb8.decrypt` — a whole text; the register goes on where it stopped.
* `Cfb8.ofSecret` — key and register from the two halves of the SHA-256 hash of a secret.
* `Cfb8.decrypt_encrypt` — decrypting undoes encrypting.
-/

/-- A cryptor: the round keys and the register. -/
structure Cfb8 where
  /-- The round keys of AES-128. -/
  schedule : Aes.Schedule
  /-- The last sixteen bytes of the initialisation vector followed by the ciphertext so far. -/
  register : Vector UInt8 16

namespace Cfb8

/-- The cryptor with a key of sixteen bytes and an initialisation vector. -/
def ofKey (key iv : Vector UInt8 16) : Cfb8 :=
  { schedule := Aes.Schedule.ofKey key.toList, register := iv }

/-- Key and initialisation vector: the two halves of the hash of a secret. -/
def keyAndVector (secret : Bytes) : Vector UInt8 16 × Vector UInt8 16 :=
  let hash := Sha256.digest secret
  (Vector.ofFn fun i => hash[i.val], Vector.ofFn fun i => hash[i.val + 16])

/-- The cryptor for a secret. -/
def ofSecret (secret : Bytes) : Cfb8 :=
  let (key, iv) := keyAndVector secret
  ofKey key iv

/-- The byte that masks the next byte. -/
def maskByte (c : Cfb8) : UInt8 := (Aes.encrypt c.schedule c.register)[0]

/-- Shifts a ciphertext byte into the register. -/
def shiftIn (c : Cfb8) (x : UInt8) : Cfb8 :=
  { c with register := Vector.ofFn fun i => if h : i.val < 15 then c.register[i.val + 1] else x }

/-- Encrypts one byte; the byte that comes out is shifted in. -/
def encryptByte (c : Cfb8) (x : UInt8) : UInt8 × Cfb8 :=
  let y := x ^^^ c.maskByte
  (y, c.shiftIn y)

/-- Decrypts one byte; the byte that goes in is shifted in. -/
def decryptByte (c : Cfb8) (y : UInt8) : UInt8 × Cfb8 :=
  (y ^^^ c.maskByte, c.shiftIn y)

/-- Runs a step over all bytes, collecting the results last first. -/
def runOnto (step : Cfb8 → UInt8 → UInt8 × Cfb8) (done : Bytes) (c : Cfb8) : Bytes → Bytes × Cfb8
  | [] => (done.reverse, c)
  | x :: rest => let (y, c) := step c x; runOnto step (y :: done) c rest

/-- Encrypts a text. -/
def encrypt (c : Cfb8) (text : Bytes) : Bytes × Cfb8 := runOnto encryptByte [] c text

/-- Decrypts a text. -/
def decrypt (c : Cfb8) (text : Bytes) : Bytes × Cfb8 := runOnto decryptByte [] c text

/-! ### Undoing -/

theorem runOnto_done (step : Cfb8 → UInt8 → UInt8 × Cfb8) (done : Bytes) (c : Cfb8) (text : Bytes) :
    runOnto step done c text =
      (done.reverse ++ (runOnto step [] c text).1, (runOnto step [] c text).2) := by
  induction text generalizing done c with
  | nil => simp [runOnto]
  | cons x text ih =>
    have hstep : ∀ done, runOnto step done c (x :: text) =
        runOnto step ((step c x).1 :: done) (step c x).2 text := fun _ => rfl
    rw [hstep, hstep, ih, ih [_]]
    simp

/-- The first byte is done first; the others follow from where the register then is. -/
theorem runOnto_cons (step : Cfb8 → UInt8 → UInt8 × Cfb8) (c : Cfb8) (x : UInt8) (text : Bytes) :
    runOnto step [] c (x :: text) =
      ((step c x).1 :: (runOnto step [] (step c x).2 text).1,
        (runOnto step [] (step c x).2 text).2) :=
  runOnto_done step [(step c x).1] (step c x).2 text

/-- A text in two parts: the second one goes on from where the register then is. -/
theorem runOnto_append (step : Cfb8 → UInt8 → UInt8 × Cfb8) (c : Cfb8) (text more : Bytes) :
    runOnto step [] c (text ++ more) =
      ((runOnto step [] c text).1 ++ (runOnto step [] (runOnto step [] c text).2 more).1,
        (runOnto step [] (runOnto step [] c text).2 more).2) := by
  induction text generalizing c with
  | nil => rfl
  | cons x text ih => rw [List.cons_append, runOnto_cons, ih, runOnto_cons, List.cons_append]

@[simp] theorem length_runOnto (step : Cfb8 → UInt8 → UInt8 × Cfb8) (c : Cfb8) (text : Bytes) :
    (runOnto step [] c text).1.length = text.length := by
  induction text generalizing c with
  | nil => rfl
  | cons x text ih => rw [runOnto_cons, List.length_cons, List.length_cons, ih]

/-- Decrypting a byte undoes encrypting it, and the register is the same after both. -/
theorem decryptByte_encryptByte (c : Cfb8) (x : UInt8) :
    c.decryptByte (c.encryptByte x).1 = (x, (c.encryptByte x).2) := by
  show ((x ^^^ c.maskByte) ^^^ c.maskByte, _) = _
  rw [UInt8.xor_assoc, UInt8.xor_self, UInt8.xor_zero]
  rfl

/-- **Decrypting undoes encrypting.** -/
theorem decrypt_encrypt (c : Cfb8) (text : Bytes) :
    c.decrypt (c.encrypt text).1 = (text, (c.encrypt text).2) := by
  unfold encrypt decrypt
  -- On the text: after each byte both registers are the same again.
  induction text generalizing c with
  | nil => rfl
  | cons x text ih =>
    rw [runOnto_cons encryptByte]
    dsimp only
    rw [runOnto_cons, decryptByte_encryptByte, ih]

theorem length_encrypt (c : Cfb8) (text : Bytes) : (c.encrypt text).1.length = text.length :=
  length_runOnto encryptByte c text

end Cfb8

end Lockbox
