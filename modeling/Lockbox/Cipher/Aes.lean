import Lockbox.Bytes

namespace Lockbox.Aes

/-!
# The AES block cipher

The forward direction of FIPS 197 for keys of 16, 24 and 32 bytes, which is all that the modes of
this library need.

* `Schedule.ofKey` — the round keys of a key.
* `encrypt` — one block of sixteen bytes.
-/

/-- Sixteen bytes; byte `4 * c + r` is in row `r` of column `c`. -/
abbrev Block := Vector UInt8 16

/-- The block of zeros. -/
def zeroBlock : Block := Vector.replicate 16 0

/-- The first sixteen bytes of a byte string, with zeros after its end. -/
def Block.ofBytes (b : Bytes) : Block :=
  let bytes := b.toArray
  Vector.ofFn fun i => bytes.getD i 0

/-- Byte-wise exclusive or of two blocks. -/
def xorBlocks (a b : Block) : Block := Vector.zipWith (· ^^^ ·) a b

/-! ### The substitution of bytes -/

/-- Multiplication by `x` in the field of 256 elements. -/
def double (a : UInt8) : UInt8 := (a <<< 1) ^^^ (if a < 0x80 then 0 else 0x1b)

/-- Multiplication in the field of 256 elements. -/
def mul (a b : UInt8) : UInt8 :=
  (List.range 8).foldl (fun sum i =>
    if (b >>> UInt8.ofNat i) &&& 1 = 1 then sum ^^^ Nat.repeat double i a else sum) 0

/-- The inverse in the field of 256 elements, and zero for zero: the power 254, which is the
    product of the powers 2, 4, 8 and so on up to 128. -/
def inverse (a : UInt8) : UInt8 :=
  (List.range 7).foldl (fun product i => mul product (Nat.repeat (fun x => mul x x) (i + 1) a)) 1

/-- Rotation to the left by `n` bits, `0 < n < 8`. -/
def rotl (x n : UInt8) : UInt8 := (x <<< n) ||| (x >>> (8 - n))

/-- The substituted bytes, in order: inversion, then an affine map of the bits. -/
def substitutions : Vector UInt8 256 :=
  Vector.ofFn fun i =>
    let x := inverse (UInt8.ofNat i.val)
    x ^^^ rotl x 1 ^^^ rotl x 2 ^^^ rotl x 3 ^^^ rotl x 4 ^^^ 0x63

/-- The substitution of one byte. -/
def substitute (x : UInt8) : UInt8 := substitutions.get ⟨x.toNat, x.toNat_lt⟩

/-! ### The key schedule -/

/-- The round keys, first to last. -/
abbrev Schedule := List Block

/-- The substitution of each byte of a word. -/
def substituteWord (w : UInt32) : UInt32 :=
  let part (shift : UInt32) := (substitute (w >>> shift).toUInt8).toUInt32 <<< shift
  part 24 ||| part 16 ||| part 8 ||| part 0

/-- The next word of a schedule for a key of `size` words. -/
def extendSchedule (size : Nat) (words : Array UInt32) : Array UInt32 :=
  let i := words.size
  let last := words.getD (i - 1) 0
  let turned :=
    if i % size = 0 then
      substituteWord ((last <<< 8) ||| (last >>> 24)) ^^^
        ((Nat.repeat double (i / size - 1) 1).toUInt32 <<< 24)
    else if size > 6 ∧ i % size = 4 then substituteWord last
    else last
  words.push (words.getD (i - size) 0 ^^^ turned)

/-- The round keys of a key of 16, 24 or 32 bytes: seven more than it has words. -/
def Schedule.ofKey (key : Bytes) : Schedule :=
  let size := key.length / 4
  let start : Array UInt32 := ((key.blocks 4).map fun b => UInt32.ofNat b.toNatBE).toArray
  let words := Nat.fold (4 * (size + 7) - size) (fun _ _ w => extendSchedule size w) start
  let bytes : Bytes := words.toList.flatMap fun w => Bytes.ofNatBE 4 w.toNat
  (bytes.blocks 16).map Block.ofBytes

/-! ### The rounds -/

/-- Substitutes all bytes and rotates row `r` to the left by `r` places. -/
def substituteAndShift (s : Block) : Block :=
  Vector.ofFn fun i => substitute s[(i.val + 4 * (i.val % 4)) % 16]

/-- Multiplies each column by the matrix of FIPS 197. -/
def mixColumns (s : Block) : Block :=
  Vector.ofFn fun i =>
    let column := 4 * (i.val / 4)
    let a := s[column + i.val % 4]
    let b := s[column + (i.val + 1) % 4]
    double (a ^^^ b) ^^^ b ^^^ s[column + (i.val + 2) % 4] ^^^ s[column + (i.val + 3) % 4]

/-- The rounds from the second round key on; the last one does not mix the columns. -/
def rounds (s : Block) : Schedule → Block
  | [] => s
  | [last] => xorBlocks (substituteAndShift s) last
  | key :: next :: rest => rounds (xorBlocks (mixColumns (substituteAndShift s)) key) (next :: rest)

/-- Encrypts one block. -/
def encrypt (schedule : Schedule) (s : Block) : Block :=
  match schedule with
  | [] => s
  | first :: rest => rounds (xorBlocks s first) rest

end Lockbox.Aes
