import Lockbox.Hash.Hmac
import Lockbox.Words

namespace Lockbox.Scrypt

/-!
# scrypt

The memory-hard key derivation of RFC 7914.  The password is stretched to `lanes` chunks, each is
stirred through a table of all its earlier states, and the result salts the final stretching.

* `salsa` — the Salsa20/8 core on sixteen words.
* `mixChunk` — the block mix over the pieces of a chunk.
* `stir` — the sequential memory-hard mix of one chunk.
* `derive` — the key of 32 bytes.
-/

/-- What the cost of a derivation depends on. -/
structure Cost where
  /-- The number of rows in the table of a chunk, a power of two. -/
  rows : Nat
  /-- A chunk has twice as many pieces of 64 bytes. -/
  pairs : Nat
  /-- The number of chunks. -/
  lanes : Nat

/-- A piece of 64 bytes: sixteen words, a 4 by 4 matrix row by row. -/
structure Piece where
  (x0 x1 x2 x3 x4 x5 x6 x7 x8 x9 x10 x11 x12 x13 x14 x15 : UInt32)

/-- A chunk: the pieces that are mixed together. -/
abbrev Chunk := Array Piece

/-- The piece whose words are these, in order; words that are missing are zero. -/
def Piece.ofWords (w : Array UInt32) : Piece :=
  ⟨w.getD 0 0, w.getD 1 0, w.getD 2 0, w.getD 3 0, w.getD 4 0, w.getD 5 0, w.getD 6 0, w.getD 7 0,
    w.getD 8 0, w.getD 9 0, w.getD 10 0, w.getD 11 0, w.getD 12 0, w.getD 13 0, w.getD 14 0,
    w.getD 15 0⟩

/-- The words of a piece, in order. -/
def Piece.toWords (p : Piece) : List UInt32 :=
  [p.x0, p.x1, p.x2, p.x3, p.x4, p.x5, p.x6, p.x7, p.x8, p.x9, p.x10, p.x11, p.x12, p.x13, p.x14,
    p.x15]

/-- Applies an operation on words to two pieces. -/
@[inline] def Piece.zipWith (f : UInt32 → UInt32 → UInt32) (p q : Piece) : Piece :=
  ⟨f p.x0 q.x0, f p.x1 q.x1, f p.x2 q.x2, f p.x3 q.x3, f p.x4 q.x4, f p.x5 q.x5, f p.x6 q.x6,
    f p.x7 q.x7, f p.x8 q.x8, f p.x9 q.x9, f p.x10 q.x10, f p.x11 q.x11, f p.x12 q.x12,
    f p.x13 q.x13, f p.x14 q.x14, f p.x15 q.x15⟩

/-- The piece of zeros. -/
def zeroPiece : Piece := Piece.ofWords #[]

/-! ### The Salsa20/8 core -/

/-- Four words of a row or column. -/
structure Quad where
  (a b c d : UInt32)

/-- Mixes four words. -/
@[inline] def quarterRound (a b c d : UInt32) : Quad :=
  let b := b ^^^ rotl32 (a + d) 7
  let c := c ^^^ rotl32 (b + a) 9
  let d := d ^^^ rotl32 (c + b) 13
  let a := a ^^^ rotl32 (d + c) 18
  ⟨a, b, c, d⟩

/-- Two rounds: the columns of a piece, then its rows. -/
def doubleRound (p : Piece) : Piece :=
  let ⟨x0, x1, x2, x3, x4, x5, x6, x7, x8, x9, x10, x11, x12, x13, x14, x15⟩ := p
  let ⟨x0, x4, x8, x12⟩ := quarterRound x0 x4 x8 x12
  let ⟨x5, x9, x13, x1⟩ := quarterRound x5 x9 x13 x1
  let ⟨x10, x14, x2, x6⟩ := quarterRound x10 x14 x2 x6
  let ⟨x15, x3, x7, x11⟩ := quarterRound x15 x3 x7 x11
  let ⟨x0, x1, x2, x3⟩ := quarterRound x0 x1 x2 x3
  let ⟨x5, x6, x7, x4⟩ := quarterRound x5 x6 x7 x4
  let ⟨x10, x11, x8, x9⟩ := quarterRound x10 x11 x8 x9
  let ⟨x15, x12, x13, x14⟩ := quarterRound x15 x12 x13 x14
  ⟨x0, x1, x2, x3, x4, x5, x6, x7, x8, x9, x10, x11, x12, x13, x14, x15⟩

/-- The Salsa20/8 core: eight rounds, added to what they started from. -/
def salsa (p : Piece) : Piece := Piece.zipWith (· + ·) p (Nat.repeat doubleRound 4 p)

/-! ### Mixing a chunk -/

/-- Word-wise exclusive or of two pieces. -/
def xorPieces (p q : Piece) : Piece := Piece.zipWith (· ^^^ ·) p q

/-- Each piece is mixed with the result before it, the first with the last piece; the results at
    even places come first. -/
def mixChunk (x : Chunk) : Chunk :=
  let (even, odd, _, _) := x.foldl (fun (even, odd, last, isEven) piece =>
      let next := salsa (xorPieces last piece)
      if isEven then (even.push next, odd, next, false) else (even, odd.push next, next, true))
    ((#[], #[], x.getD (x.size - 1) zeroPiece, true) : Chunk × Chunk × Piece × Bool)
  even ++ odd

/-- The row that a chunk points at: the first word of its last piece, modulo the table's size. -/
def rowOf (rows : Nat) (x : Chunk) : Nat :=
  (x.getD (x.size - 1) zeroPiece).x0.toNat % rows

/-- The sequential memory-hard mix: a table of the first `rows` states is written, then as many
    rows of it are mixed in where the chunk points. -/
def stir (rows : Nat) (x : Chunk) : Chunk :=
  let (table, x) := Nat.fold rows
    (fun _ _ ((table, x) : Array Chunk × Chunk) => (table.push x, mixChunk x))
    (Array.mkEmpty rows, x)
  Nat.fold rows
    (fun _ _ x => mixChunk (Array.zipWith xorPieces x (table.getD (rowOf rows x) #[]))) x

/-! ### The derivation -/

/-- A chunk from its bytes. -/
def Chunk.ofBytes (b : Bytes) : Chunk :=
  let piece (p : Bytes) := Piece.ofWords ((p.blocks 4).map fun w => UInt32.ofNat w.toNatLE).toArray
  ((b.blocks 64).map piece).toArray

/-- The bytes of a chunk. -/
def Chunk.toBytes (x : Chunk) : Bytes :=
  x.toList.flatMap fun p => p.toWords.flatMap fun w => Bytes.ofNatLE 4 w.toNat

/-- The key of 32 bytes that a password and a salt stand for. -/
def derive (cost : Cost) (password salt : Bytes) : Vector UInt8 32 :=
  let chunkSize := 128 * cost.pairs
  let stretched := Hmac.expand password salt (cost.lanes * chunkSize)
  let stirred := (stretched.blocks chunkSize).flatMap fun b =>
    Chunk.toBytes (stir cost.rows (Chunk.ofBytes b))
  let key := (Hmac.expand password stirred 32).toArray
  Vector.ofFn fun i => key.getD i 0

end Lockbox.Scrypt
