import Lockbox.Hash.Blake2b

namespace Lockbox.Argon2

/-!
# Argon2id

The memory-hard key derivation of RFC 9106, version 0x13, with one lane, no secret and no
associated data.  The memory is a row of blocks of 1024 bytes, filled from left to right once per
pass; each block is mixed from the block before it and from an earlier one.  Which earlier one is
told by the block before it, except in the first half of the first pass, where it is told by
address blocks that do not depend on the password.

* `mixBlocks` — the compression function on two blocks.
* `referenceIndex` — which earlier block a random word stands for.
* `fill` — all passes over the memory.
* `derive` — the key of 32 bytes.
-/

/-- What the cost of a derivation depends on. -/
structure Cost where
  /-- The number of passes over the memory. -/
  passes : Nat
  /-- The number of memory blocks of 1024 bytes, a multiple of four. -/
  blocks : Nat

/-- A memory block: 128 words. -/
abbrev Block := Vector UInt64 128

/-- The block of zeros. -/
def zeroBlock : Block := Vector.replicate 128 0

/-! ### The compression function -/

/-- The sum of two words and twice the product of their lower halves. -/
@[inline] def blend (x y : UInt64) : UInt64 :=
  x + y + 2 * ((x &&& 0xffffffff) * (y &&& 0xffffffff))

/-- Mixes the words at four places of a block. -/
@[inline] def mixAt (i j k l : Fin 128) (v : Block) : Block :=
  let a := blend v[i] v[j]
  let d := rotr64 (v[l] ^^^ a) 32
  let c := blend v[k] d
  let b := rotr64 (v[j] ^^^ c) 24
  let a := blend a b
  let d := rotr64 (d ^^^ a) 16
  let c := blend c d
  let b := rotr64 (b ^^^ c) 63
  (((v.set i a).set j b).set k c).set l d

/-- Mixes sixteen words of a block, given by their places: four columns, then four diagonals. -/
@[specialize] def permute (at_ : Nat → Fin 128) (v : Block) : Block :=
  v |> mixAt (at_ 0) (at_ 4) (at_ 8) (at_ 12)
    |> mixAt (at_ 1) (at_ 5) (at_ 9) (at_ 13)
    |> mixAt (at_ 2) (at_ 6) (at_ 10) (at_ 14)
    |> mixAt (at_ 3) (at_ 7) (at_ 11) (at_ 15)
    |> mixAt (at_ 0) (at_ 5) (at_ 10) (at_ 15)
    |> mixAt (at_ 1) (at_ 6) (at_ 11) (at_ 12)
    |> mixAt (at_ 2) (at_ 7) (at_ 8) (at_ 13)
    |> mixAt (at_ 3) (at_ 4) (at_ 9) (at_ 14)

/-- The places of row `i` of a block that is read as an 8 by 8 matrix of pairs of words. -/
@[inline] def rowPlace (i : Fin 8) (j : Nat) : Fin 128 := ⟨16 * i + j % 16, by omega⟩

/-- The places of column `i` of a block that is read as an 8 by 8 matrix of pairs of words. -/
@[inline] def columnPlace (i : Fin 8) (j : Nat) : Fin 128 :=
  ⟨2 * i + 16 * (j / 2 % 8) + j % 2, by omega⟩

/-- Word-wise exclusive or of two blocks. -/
def xorBlocks (a b : Block) : Block := Vector.zipWith (· ^^^ ·) a b

/-- The compression function: all rows, then all columns of the exclusive or are mixed. -/
def mixBlocks (a b : Block) : Block :=
  let sum := xorBlocks a b
  let rows := Fin.foldl 8 (fun v i => permute (rowPlace i) v) sum
  xorBlocks sum (Fin.foldl 8 (fun v i => permute (columnPlace i) v) rows)

/-! ### Filling the memory -/

/-- The place in the memory that is being filled. -/
structure Position where
  /-- The pass, from zero. -/
  pass : Nat
  /-- The quarter of the memory, from zero. -/
  slice : Nat
  /-- The block within the quarter. -/
  index : Nat

/-- The random words of 128 consecutive blocks of a quarter do not depend on the password: they
    are mixed from the place and the parameters alone. -/
def addressBlock (cost : Cost) (pos : Position) : Block :=
  let input := zeroBlock
    |>.set 0 (UInt64.ofNat pos.pass) |>.set 2 (UInt64.ofNat pos.slice)
    |>.set 3 (UInt64.ofNat cost.blocks) |>.set 4 (UInt64.ofNat cost.passes) |>.set 5 2
    |>.set 6 (UInt64.ofNat (pos.index / 128 + 1))
  mixBlocks zeroBlock (mixBlocks zeroBlock input)

/-- The block that a random word stands for, among the blocks that are complete and not the one
    just before; recent blocks are favoured. -/
def referenceIndex (cost : Cost) (pos : Position) (random : UInt64) : Nat :=
  let quarter := cost.blocks / 4
  let done := if pos.pass = 0 then pos.slice * quarter else cost.blocks - quarter
  let start := if pos.pass = 0 then 0 else (pos.slice + 1) * quarter
  let area := UInt64.ofNat (done + pos.index - 1)
  let low := random &&& 0xffffffff
  let offset := (area * ((low * low) >>> 32)) >>> 32
  (start + (area - 1 - offset).toNat) % cost.blocks

/-- The memory as it is filled, and the current address block. -/
structure Memory where
  /-- The blocks, in order; in the first pass, those filled so far. -/
  blocks : Array Block
  /-- The random words in use where they do not depend on the password. -/
  addresses : Block

/-- Fills the block at one place. -/
def fillAt (cost : Cost) (memory : Memory) (pos : Position) : Memory :=
  let place := pos.slice * (cost.blocks / 4) + pos.index
  let before := memory.blocks.getD ((place + cost.blocks - 1) % cost.blocks) zeroBlock
  let independent := pos.pass = 0 ∧ pos.slice < 2
  let addresses :=
    if independent ∧ (pos.index % 128 = 0 ∨ pos.slice = 0 ∧ pos.index = 2) then
      addressBlock cost pos
    else memory.addresses
  let random :=
    if independent then addresses.get (Fin.ofNat 128 pos.index) else before[0]
  let reference := memory.blocks.getD (referenceIndex cost pos random) zeroBlock
  let mixed := mixBlocks before reference
  if pos.pass = 0 then
    { blocks := memory.blocks.push mixed, addresses }
  else
    let old := memory.blocks.getD place zeroBlock
    { blocks := memory.blocks.setIfInBounds place (xorBlocks mixed old), addresses }

/-- Fills the blocks of one quarter in one pass; the first two of all are there already. -/
def fillSlice (cost : Cost) (pass slice : Nat) (memory : Memory) : Memory :=
  let ready := if pass = 0 ∧ slice = 0 then 2 else 0
  Nat.fold (cost.blocks / 4 - ready)
    (fun i _ m => fillAt cost m ⟨pass, slice, ready + i⟩) memory

/-- All passes over the memory, from its first two blocks on. -/
def fill (cost : Cost) (first second : Block) : Array Block :=
  let start : Memory := { blocks := #[first, second], addresses := zeroBlock }
  (Nat.fold cost.passes (fun pass _ m =>
    Nat.fold 4 (fun slice _ m => fillSlice cost pass slice m) m) start).blocks

/-! ### The derivation -/

/-- The hash with a digest of any size: digests of 64 bytes are chained, and of each but the last
    the first half is used. -/
def longHash (size : Nat) (message : Bytes) : Bytes :=
  let input := Bytes.ofNatLE 4 size ++ message
  if size ≤ 64 then Blake2b.digest size input
  else
    let links := (size + 31) / 32 - 2
    let first := Blake2b.digest 64 input
    let (out, last) := Nat.fold (links - 1)
      (fun _ _ (out, last) =>
        let next := Blake2b.digest 64 last
        (out ++ next.take 32, next))
      (first.take 32, first)
    out ++ Blake2b.digest (size - 32 * links) last

/-- A length as four bytes, and the bytes. -/
def counted (b : Bytes) : Bytes := Bytes.ofNatLE 4 b.length ++ b

/-- The hash of the parameters, the password and the salt, for a key of `size` bytes. -/
def seed (cost : Cost) (size : Nat) (password salt : Bytes) : Bytes :=
  Blake2b.digest 64 <|
    [1, size, cost.blocks, cost.passes, 0x13, 2].flatMap (Bytes.ofNatLE 4) ++
      counted password ++ counted salt ++ counted [] ++ counted []

/-- A memory block from its 1024 bytes. -/
def Block.ofBytes (b : Bytes) : Block :=
  let words := ((b.blocks 8).map fun w => UInt64.ofNat w.toNatLE).toArray
  Vector.ofFn fun i => words.getD i 0

/-- The 1024 bytes of a memory block. -/
def Block.toBytes (b : Block) : Bytes := b.toList.flatMap fun w => Bytes.ofNatLE 8 w.toNat

/-- The key of 32 bytes that a password and a salt stand for. -/
def derive (cost : Cost) (password salt : Bytes) : Vector UInt8 32 :=
  let start := seed cost 32 password salt
  let first (i : Nat) := Block.ofBytes (longHash 1024 (start ++ [i, 0].flatMap (Bytes.ofNatLE 4)))
  let memory := fill cost (first 0) (first 1)
  let last := memory.getD (cost.blocks - 1) zeroBlock
  let key := (longHash 32 (Block.toBytes last)).toArray
  Vector.ofFn fun i => key.getD i 0

end Lockbox.Argon2
