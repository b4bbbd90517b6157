import Lockbox.Bytes
import Lockbox.Words

namespace Lockbox.Md5

/-!
# MD5

The hash function of RFC 1321, which names a cache entry.  `digest` pads the message to whole
blocks of 64 bytes (`padded`), folds `compress` over them and writes the four words of the state
little-endian.
-/

/-- The four chaining words. -/
abbrev State := Vector UInt32 4

/-- The four words that count up and down through the hexadecimal digits. -/
def initial : State := #v[0x67452301, 0xefcdab89, 0x98badcfe, 0x10325476]

/-- Step `i` adds the whole part of `2 ^ 32 * |sin (i + 1)|`. -/
def stepConstants : Vector UInt32 64 :=
  #v[0xd76aa478, 0xe8c7b756, 0x242070db, 0xc1bdceee, 0xf57c0faf, 0x4787c62a,
    0xa8304613, 0xfd469501, 0x698098d8, 0x8b44f7af, 0xffff5bb1, 0x895cd7be,
    0x6b901122, 0xfd987193, 0xa679438e, 0x49b40821, 0xf61e2562, 0xc040b340,
    0x265e5a51, 0xe9b6c7aa, 0xd62f105d, 0x02441453, 0xd8a1e681, 0xe7d3fbc8,
    0x21e1cde6, 0xc33707d6, 0xf4d50d87, 0x455a14ed, 0xa9e3e905, 0xfcefa3f8,
    0x676f02d9, 0x8d2a4c8a, 0xfffa3942, 0x8771f681, 0x6d9d6122, 0xfde5380c,
    0xa4beea44, 0x4bdecfa9, 0xf6bb4b60, 0xbebfbc70, 0x289b7ec6, 0xeaa127fa,
    0xd4ef3085, 0x04881d05, 0xd9d4d039, 0xe6db99e5, 0x1fa27cf8, 0xc4ac5665,
    0xf4292244, 0x432aff97, 0xab9423a7, 0xfc93a039, 0x655b59c3, 0x8f0ccc92,
    0xffeff47d, 0x85845dd1, 0x6fa87e4f, 0xfe2ce6e0, 0xa3014314, 0x4e0811a1,
    0xf7537e82, 0xbd3af235, 0x2ad7d2bb, 0xeb86d391]

/-- The rotations of a round of sixteen steps, which repeat every four steps. -/
def rotations : Vector (Vector UInt32 4) 4 :=
  #v[#v[7, 12, 17, 22], #v[5, 9, 14, 20], #v[4, 11, 16, 23], #v[6, 10, 15, 21]]

/-- The mixing function of a step, and the index of the message word that it takes in. -/
def selection (i : Fin 64) (b c d : UInt32) : UInt32 × Nat :=
  if i < 16 then ((b &&& c) ||| (~~~b &&& d), i)
  else if i < 32 then ((d &&& b) ||| (~~~d &&& c), (5 * i.val + 1) % 16)
  else if i < 48 then (b ^^^ c ^^^ d, (3 * i.val + 5) % 16)
  else (c ^^^ (b ||| ~~~d), (7 * i.val) % 16)

/-- Step `i` on a block given as words. -/
def step (words : Array UInt32) (s : State) (i : Fin 64) : State :=
  let (f, k) := selection i s[1] s[2] s[3]
  let sum := s[0] + f + stepConstants[i] + words.getD k 0
  #v[s[3], s[1] + rotl32 sum rotations[i.val / 16][i.val % 4], s[1], s[2]]

/-- Mixes one block of 64 bytes into the state. -/
def compress (s : State) (block : Bytes) : State :=
  let words := ((block.blocks 4).map fun b => UInt32.ofNat b.toNatLE).toArray
  Vector.zipWith (· + ·) s (Fin.foldl 64 (step words) s)

/-- The message, a one bit, zeros up to eight bytes short of a whole block, and the bit length. -/
def padded (message : Bytes) : Bytes :=
  let zeros := 63 - (message.length + 8) % 64
  message ++ 0x80 :: List.replicate zeros 0 ++ Bytes.ofNatLE 8 (8 * message.length)

/-- The MD5 hash of a message. -/
def digest (message : Bytes) : Vector UInt8 16 :=
  let s := ((padded message).blocks 64).foldl compress initial
  Vector.ofFn fun i => (s[i.val / 4] >>> (8 * UInt32.ofNat (i.val % 4))).toUInt8

end Lockbox.Md5
