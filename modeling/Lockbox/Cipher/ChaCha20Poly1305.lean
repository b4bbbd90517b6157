import Lockbox.Cipher.Aead
import Lockbox.Words

namespace Lockbox.ChaCha20Poly1305

/-!
# ChaCha20-Poly1305

The authenticated cipher of RFC 8439 with nonces of twelve bytes and no associated data.

* `keyBlock` — a block of the ChaCha20 key stream.
* `poly` — the Poly1305 tag of a message under a one-time key.
* `cipher` — the cipher under a key of 32 bytes.
-/

/-! ### The key stream -/

/-- The sixteen words that the rounds mix. -/
abbrev State := Vector UInt32 16

/-- Mixes the words at four places. -/
def quarterRound (i j k l : Fin 16) (s : State) : State :=
  let a := s.get i + s.get j
  let d := rotl32 (s.get l ^^^ a) 16
  let c := s.get k + d
  let b := rotl32 (s.get j ^^^ c) 12
  let a := a + b
  let d := rotl32 (d ^^^ a) 8
  let c := c + d
  let b := rotl32 (b ^^^ c) 7
  putAt (putAt (putAt (putAt s i a) j b) k c) l d

/-- Two rounds: the columns of the state as a 4 by 4 matrix, then its diagonals. -/
def doubleRound (s : State) : State :=
  s |> quarterRound (place 0) (place 4) (place 8) (place 12)
    |> quarterRound (place 1) (place 5) (place 9) (place 13)
    |> quarterRound (place 2) (place 6) (place 10) (place 14)
    |> quarterRound (place 3) (place 7) (place 11) (place 15)
    |> quarterRound (place 0) (place 5) (place 10) (place 15)
    |> quarterRound (place 1) (place 6) (place 11) (place 12)
    |> quarterRound (place 2) (place 7) (place 8) (place 13)
    |> quarterRound (place 3) (place 4) (place 9) (place 14)

/-- The state before the rounds: four constants, the key, the block number and the nonce. -/
def initial (key nonce : Bytes) (number : Nat) : State :=
  let words := (((key ++ Bytes.ofNatLE 4 number ++ nonce).blocks 4).map fun b =>
    UInt32.ofNat b.toNatLE).toArray
  Vector.ofFn fun i =>
    match i with
    | 0 => 0x61707865
    | 1 => 0x3320646e
    | 2 => 0x79622d32
    | 3 => 0x6b206574
    | i => words.getD (i - 4) 0

/-- A block of the key stream: twenty rounds, added to what they started from. -/
def keyBlock (key nonce : Bytes) (number : Nat) : Vector UInt8 64 :=
  let start := initial key nonce number
  let s := Vector.zipWith (· + ·) start (Nat.repeat doubleRound 10 start)
  Vector.ofFn fun i => (s[i.val / 4] >>> (8 * UInt32.ofNat (i.val % 4))).toUInt8

/-- The key stream from block number 1 on, enough of it for `size` bytes. -/
def pad (key nonce : Bytes) (size : Nat) : Bytes :=
  (List.range ((size + 63) / 64)).flatMap fun i => (keyBlock key nonce (i + 1)).toList

theorem le_length_pad (key nonce : Bytes) (size : Nat) :
    size ≤ (pad key nonce size).length := by
  have h : (pad key nonce size).length = 64 * ((size + 63) / 64) := by
    simp only [pad, List.length_flatMap, Vector.length_toList]
    generalize (size + 63) / 64 = k
    rw [List.map_const']
    simp
    omega
  omega

/-! ### The tag -/

/-- The prime that Poly1305 computes modulo, 2¹³⁰ - 5. -/
def prime : Nat := 0x3fffffffffffffffffffffffffffffffb

/-- The Poly1305 tag of a message under a one-time key of 32 bytes. -/
def poly (key message : Bytes) : Bytes :=
  let point := Bytes.toNatLE (key.take 16) &&& 0x0ffffffc0ffffffc0ffffffc0fffffff
  let absorb (sum : Nat) (block : Bytes) := ((sum + Bytes.toNatLE (block ++ [1])) * point) % prime
  Bytes.ofNatLE 16 ((message.blocks 16).foldl absorb 0 + Bytes.toNatLE (key.drop 16))

/-- The zeros that make a text as long as a whole number of sixteen-byte blocks. -/
def zerosAfter (text : Bytes) : Bytes := List.replicate ((16 - text.length % 16) % 16) 0

/-! ### The cipher -/

/-- The stream cipher and the tag under a key of 32 bytes.  The one-time key of the tag is block
    number 0 of the key stream, and the tag covers the text, padded, and its length. -/
def streamMac (key : Bytes) : StreamMac where
  pad := pad key
  tag nonce masked :=
    let oneTimeKey := (keyBlock key nonce 0).toList.take 32
    let message := masked ++ zerosAfter masked ++ Bytes.ofNatLE 8 0 ++
      Bytes.ofNatLE 8 masked.length
    let tag := (poly oneTimeKey message).toArray
    Vector.ofFn fun i => tag.getD i 0
  le_length_pad := le_length_pad key

/-- ChaCha20-Poly1305 under a key of 32 bytes. -/
def cipher (key : Bytes) : Aead := Aead.ofStreamMac 12 (streamMac key)

end Lockbox.ChaCha20Poly1305
