import Lockbox.Bytes
import Lockbox.Words

namespace Lockbox.Blake2b

/-!
# BLAKE2b

The unkeyed hash function of RFC 7693, with a digest of one to 64 bytes.  Argon2 uses it to turn
its parameters into the first memory blocks and its last memory block into a key.
-/

/-- The eight chaining words. -/
abbrev State := Vector UInt64 8

/-- The sixteen words that the rounds of one compression mix. -/
abbrev Work := Vector UInt64 16

/-- The first 64 bits of the fractional parts of the square roots of the first eight primes. -/
def initial : State :=
  #v[0x6a09e667f3bcc908, 0xbb67ae8584caa73b, 0x3c6ef372fe94f82b,
    0xa54ff53a5f1d36f1, 0x510e527fade682d1, 0x9b05688c2b3e6c1f,
    0x1f83d9abfb41bd6b, 0x5be0cd19137e2179]

/-- The order in which a round takes in the words of a block. -/
def permutations : Vector (List Nat) 10 :=
  #v[[0, 1, 2, 3, 4, 5, 6, 7, 8, 9, 10, 11, 12, 13, 14, 15],
    [14, 10, 4, 8, 9, 15, 13, 6, 1, 12, 0, 2, 11, 7, 5, 3],
    [11, 8, 12, 0, 5, 2, 15, 13, 10, 14, 3, 6, 7, 1, 9, 4],
    [7, 9, 3, 1, 13, 12, 11, 14, 2, 6, 5, 10, 4, 0, 15, 8],
    [9, 0, 5, 7, 2, 4, 10, 15, 14, 1, 11, 12, 6, 8, 3, 13],
    [2, 12, 6, 10, 0, 11, 8, 3, 4, 13, 7, 5, 15, 14, 1, 9],
    [12, 5, 1, 15, 14, 13, 4, 10, 0, 7, 6, 3, 9, 2, 8, 11],
    [13, 11, 7, 14, 12, 1, 3, 9, 5, 0, 15, 4, 8, 6, 2, 10],
    [6, 15, 14, 9, 11, 3, 0, 8, 12, 2, 13, 7, 1, 4, 10, 5],
    [10, 2, 8, 4, 7, 6, 1, 5, 15, 11, 9, 14, 3, 12, 13, 0]]

/-- Mixes two message words `x`, `y` into the words at `a`, `b`, `c` and `d`. -/
def mix (a b c d : Fin 16) (x y : UInt64) (v : Work) : Work :=
  let va := v.get a + v.get b + x
  let vd := rotr64 (v.get d ^^^ va) 32
  let vc := v.get c + vd
  let vb := rotr64 (v.get b ^^^ vc) 24
  let va := va + vb + y
  let vd := rotr64 (vd ^^^ va) 16
  let vc := vc + vd
  let vb := rotr64 (vb ^^^ vc) 63
  putAt (putAt (putAt (putAt v a va) b vb) c vc) d vd

/-- One round: the four columns, then the four diagonals. -/
def round (words : Array UInt64) (order : List Nat) (v : Work) : Work :=
  let word (i : Nat) := words.getD (order.getD i 0) 0
  v |> mix (place 0) (place 4) (place 8) (place 12) (word 0) (word 1)
    |> mix (place 1) (place 5) (place 9) (place 13) (word 2) (word 3)
    |> mix (place 2) (place 6) (place 10) (place 14) (word 4) (word 5)
    |> mix (place 3) (place 7) (place 11) (place 15) (word 6) (word 7)
    |> mix (place 0) (place 5) (place 10) (place 15) (word 8) (word 9)
    |> mix (place 1) (place 6) (place 11) (place 12) (word 10) (word 11)
    |> mix (place 2) (place 7) (place 8) (place 13) (word 12) (word 13)
    |> mix (place 3) (place 4) (place 9) (place 14) (word 14) (word 15)

/-- Mixes a block into the state after `count` message bytes; `last` marks the last block. -/
def compress (s : State) (block : Bytes) (count : Nat) (last : Bool) : State :=
  let words := ((block.blocks 8).map fun b => UInt64.ofNat b.toNatLE).toArray
  let v : Work := s ++ initial
  let v := v.set 12 (v[12] ^^^ UInt64.ofNat count)
  let v := if last then v.set 14 (~~~v[14]) else v
  let v := Fin.foldl 12 (fun v i => round words permutations[i.val % 10] v) v
  Vector.ofFn fun i => s[i] ^^^ v[i.val] ^^^ v[i.val + 8]

/-- Compresses the blocks of a message of `total` bytes, `count` of which are done. -/
def absorb (total : Nat) : State → Nat → List Bytes → State
  | s, _, [] => s
  | s, _, [block] => compress s (block ++ List.replicate (128 - block.length) 0) total true
  | s, count, block :: next :: rest =>
    absorb total (compress s block (count + 128) false) (count + 128) (next :: rest)

/-- The first `size` bytes of the hash of a message; `size` is part of what is hashed. -/
def digest (size : Nat) (message : Bytes) : Bytes :=
  let parameters : State := #v[UInt64.ofNat (0x01010000 + size), 0, 0, 0, 0, 0, 0, 0]
  let start := Vector.zipWith (· ^^^ ·) initial parameters
  let blocks := if message.isEmpty then [[]] else message.blocks 128
  let s := absorb message.length start 0 blocks
  (s.toList.flatMap fun w => Bytes.ofNatLE 8 w.toNat).take size

end Lockbox.Blake2b
