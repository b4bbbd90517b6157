import Lockbox.Cipher.Aead
import Lockbox.Cipher.Aes

namespace Lockbox.Gcm

/-!
# AES in Galois/counter mode

The authenticated cipher of NIST SP 800-38D with nonces of twelve bytes and no associated data.

* `Element.mul` — multiplication in the field of 2 ^ 128 elements.
* `hash` — GHASH over the blocks of a masked text and its length.
* `cipher` — the cipher under a key of 16, 24 or 32 bytes.
-/

/-- An element of the field of 2 ^ 128 elements: the coefficients of the lower powers are the
    higher bits of `hi`. -/
structure Element where
  (hi lo : UInt64)

namespace Element

/-- The sum of two elements. -/
def add (a b : Element) : Element := ⟨a.hi ^^^ b.hi, a.lo ^^^ b.lo⟩

/-- Adds to `sum` the multiples of `b` that the next `n` coefficients of `a` ask for, where `b` is
    multiplied by the indeterminate from one coefficient to the next. -/
def mulOnto (n : Nat) (aHi aLo bHi bLo sumHi sumLo : UInt64) : Element :=
  match n with
  | 0 => ⟨sumHi, sumLo⟩
  | n + 1 =>
    let chosen := -(aHi >>> 63)
    let carry := -(bLo &&& 1)
    mulOnto n ((aHi <<< 1) ||| (aLo >>> 63)) (aLo <<< 1)
      ((bHi >>> 1) ^^^ (carry &&& 0xe100000000000000)) ((bLo >>> 1) ||| (bHi <<< 63))
      (sumHi ^^^ (chosen &&& bHi)) (sumLo ^^^ (chosen &&& bLo))

/-- The product of two elements. -/
def mul (a b : Element) : Element := mulOnto 128 a.hi a.lo b.hi b.lo 0 0

/-- The element that sixteen bytes stand for; missing bytes at the end are zero. -/
def ofBytes (b : Bytes) : Element :=
  let bytes := b ++ List.replicate (16 - b.length) 0
  ⟨UInt64.ofNat (Bytes.toNatBE (bytes.take 8)), UInt64.ofNat (Bytes.toNatBE (bytes.drop 8))⟩

/-- The sixteen bytes of an element. -/
def toBytes (a : Element) : Bytes := Bytes.ofNatBE 8 a.hi.toNat ++ Bytes.ofNatBE 8 a.lo.toNat

end Element

/-- The polynomial whose coefficients are the blocks of the text and a block with its length in
    bits, evaluated at `point`. -/
def hash (point : Element) (text : Bytes) : Element :=
  let absorb (sum : Element) (block : Bytes) := (sum.add (Element.ofBytes block)).mul point
  absorb ((text.blocks 16).foldl absorb ⟨0, 0⟩) (Bytes.ofNatBE 16 (8 * text.length))

/-- The counter block with number `n`. -/
def counterBlock (nonce : Bytes) (n : Nat) : Aes.Block :=
  Aes.Block.ofBytes (nonce ++ Bytes.ofNatBE 4 n)

/-- The encrypted counter blocks from number 2 on, enough of them for `size` bytes. -/
def pad (schedule : Aes.Schedule) (nonce : Bytes) (size : Nat) : Bytes :=
  (List.range ((size + 15) / 16)).flatMap fun i =>
    (Aes.encrypt schedule (counterBlock nonce (i + 2))).toList

theorem le_length_pad (schedule : Aes.Schedule) (nonce : Bytes) (size : Nat) :
    size ≤ (pad schedule nonce size).length := by
  have h : (pad schedule nonce size).length = 16 * ((size + 15) / 16) := by
    simp only [pad, List.length_flatMap, Vector.length_toList]
    generalize (size + 15) / 16 = k
    rw [List.map_const']
    simp
    omega
  omega

/-- The stream cipher and the tag under a key of 16, 24 or 32 bytes.  The tag masks the hash with
    the encrypted counter block number 1. -/
def streamMac (key : Bytes) : StreamMac :=
  let schedule := Aes.Schedule.ofKey key
  let point := Element.ofBytes (Aes.encrypt schedule Aes.zeroBlock).toList
  { pad := pad schedule
    tag := fun nonce masked =>
      Aes.xorBlocks (Aes.Block.ofBytes (hash point masked).toBytes)
        (Aes.encrypt schedule (counterBlock nonce 1))
    le_length_pad := le_length_pad schedule }

/-- AES in Galois/counter mode under a key of 16, 24 or 32 bytes. -/
def cipher (key : Bytes) : Aead := Aead.ofStreamMac 12 (streamMac key)

end Lockbox.Gcm
