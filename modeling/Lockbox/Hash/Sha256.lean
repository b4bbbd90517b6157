import Lockbox.Bytes
import Lockbox.Words

namespace Lockbox.Sha256

/-!
# SHA-256

The hash function of FIPS 180-4.  `digest` pads the message to whole blocks of 64 bytes
(`padded`), folds `compress` over them and writes the eight words of the state big-endian.
-/

/-- The eight chaining words. -/
abbrev State := Vector UInt32 8

/-- The first 32 bits of the fractional parts of the square roots of the first eight primes. -/
def initial : State :=
  #v[0x6a09e667, 0xbb67ae85, 0x3c6ef372, 0xa54ff53a, 0x510e527f, 0x9b05688c,
    0x1f83d9ab, 0x5be0cd19]

/-- The first 32 bits of the fractional parts of the cube roots of the first 64 primes. -/
def roundConstants : Vector UInt32 64 :=
  #v[0x428a2f98, 0x71374491, 0xb5c0fbcf, 0xe9b5dba5, 0x3956c25b, 0x59f111f1,
    0x923f82a4, 0xab1c5ed5, 0xd807aa98, 0x12835b01, 0x243185be, 0x550c7dc3,
    0x72be5d74, 0x80deb1fe, 0x9bdc06a7, 0xc19bf174, 0xe49b69c1, 0xefbe4786,
    0x0fc19dc6, 0x240ca1cc, 0x2de92c6f, 0x4a7484aa, 0x5cb0a9dc, 0x76f988da,
    0x983e5152, 0xa831c66d, 0xb00327c8, 0xbf597fc7, 0xc6e00bf3, 0xd5a79147,
    0x06ca6351, 0x14292967, 0x27b70a85, 0x2e1b2138, 0x4d2c6dfc, 0x53380d13,
    0x650a7354, 0x766a0abb, 0x81c2c92e, 0x92722c85, 0xa2bfe8a1, 0xa81a664b,
    0xc24b8b70, 0xc76c51a3, 0xd192e819, 0xd6990624, 0xf40e3585, 0x106aa070,
    0x19a4c116, 0x1e376c08, 0x2748774c, 0x34b0bcb5, 0x391c0cb3, 0x4ed8aa4a,
    0x5b9cca4f, 0x682e6ff3, 0x748f82ee, 0x78a5636f, 0x84c87814, 0x8cc70208,
    0x90befffa, 0xa4506ceb, 0xbef9a3f7, 0xc67178f2]

/-- The schedule extended by its next word, which depends on the words 2, 7, 15 and 16 back. -/
def extendSchedule (w : Array UInt32) : Array UInt32 :=
  let back (k : Nat) := w.getD (w.size - k) 0
  let s0 := rotr32 (back 15) 7 ^^^ rotr32 (back 15) 18 ^^^ (back 15 >>> 3)
  let s1 := rotr32 (back 2) 17 ^^^ rotr32 (back 2) 19 ^^^ (back 2 >>> 10)
  w.push (back 16 + s0 + back 7 + s1)

/-- The 64 schedule words of a block: its sixteen big-endian words and 48 more. -/
def schedule (block : Bytes) : Array UInt32 :=
  Nat.fold 48 (fun _ _ w => extendSchedule w)
    ((block.blocks 4).map fun b => UInt32.ofNat b.toNatBE).toArray

/-- One round with round constant plus schedule word `kw`. -/
def round (s : State) (kw : UInt32) : State :=
  let ch := (s[4] &&& s[5]) ^^^ (~~~s[4] &&& s[6])
  let maj := (s[0] &&& s[1]) ^^^ (s[0] &&& s[2]) ^^^ (s[1] &&& s[2])
  let t1 := s[7] + (rotr32 s[4] 6 ^^^ rotr32 s[4] 11 ^^^ rotr32 s[4] 25) + ch + kw
  let t2 := (rotr32 s[0] 2 ^^^ rotr32 s[0] 13 ^^^ rotr32 s[0] 22) + maj
  #v[t1 + t2, s[0], s[1], s[2], s[3] + t1, s[4], s[5], s[6]]

/-- Mixes one block of 64 bytes into the state. -/
def compress (s : State) (block : Bytes) : State :=
  let words := Array.zipWith (· + ·) roundConstants.toArray (schedule block)
  Vector.zipWith (· + ·) s (words.foldl round s)

/-- The message, a one bit, zeros up to eight bytes short of a whole block, and the bit length. -/
def padded (message : Bytes) : Bytes :=
  let zeros := 63 - (message.length + 8) % 64
  message ++ 0x80 :: List.replicate zeros 0 ++ Bytes.ofNatBE 8 (8 * message.length)

/-- The SHA-256 hash of a message. -/
def digest (message : Bytes) : Vector UInt8 32 :=
  let s := ((padded message).blocks 64).foldl compress initial
  Vector.ofFn fun i => (s[i.val / 4] >>> (24 - 8 * UInt32.ofNat (i.val % 4))).toUInt8

end Lockbox.Sha256
