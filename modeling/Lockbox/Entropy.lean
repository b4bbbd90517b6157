import Lockbox.Bytes

namespace Lockbox

/-!
# Randomness

Salts and nonces are taken from a stream of random bytes, one after the other, so that no byte of
the stream is ever used twice.
-/

/-- A stream of random bytes and how much of it has been used. -/
structure Entropy where
  /-- The byte at each position. -/
  stream : Nat → UInt8
  /-- The first position that has not been used. -/
  position : Nat

namespace Entropy

/-- The bytes of the stream from a position on. -/
def piece (stream : Nat → UInt8) (position size : Nat) : Bytes :=
  (List.range size).map fun i => stream (position + i)

/-- Takes the next bytes. -/
def draw (size : Nat) : StateM Entropy Bytes := fun entropy =>
  (piece entropy.stream entropy.position size, { entropy with position := entropy.position + size })

@[simp] theorem length_piece (stream : Nat → UInt8) (position size : Nat) :
    (piece stream position size).length = size := by
  simp [piece]

end Entropy

end Lockbox
