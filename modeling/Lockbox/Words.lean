namespace Lockbox

/-!
# Words

What hash functions and stream ciphers do with words: they rotate them, and mix them at places among
sixteen.

* `rotl32`, `rotr32`, `rotr64` — rotations.
* `place`, `putAt` — a place among sixteen words, and a new word at it.
-/

/-- Rotation to the left by `n` bits, `0 < n < 32`. -/
@[inline] def rotl32 (x n : UInt32) : UInt32 := (x <<< n) ||| (x >>> (32 - n))

/-- Rotation to the right by `n` bits, `0 < n < 32`. -/
@[inline] def rotr32 (x n : UInt32) : UInt32 := (x >>> n) ||| (x <<< (32 - n))

/-- Rotation to the right by `n` bits, `0 < n < 64`. -/
@[inline] def rotr64 (x n : UInt64) : UInt64 := (x >>> n) ||| (x <<< (64 - n))

/-- A place among sixteen words, counted on from the first after the last. -/
@[inline] def place (n : Nat) : Fin 16 := ⟨n % 16, Nat.mod_lt n (by decide)⟩

/-- Sixteen words with another word at a place. -/
@[inline] def putAt {α : Type} (words : Vector α 16) (i : Fin 16) (x : α) : Vector α 16 :=
  words.set i x

end Lockbox
