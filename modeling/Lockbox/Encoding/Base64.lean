import Lockbox.Bytes

namespace Lockbox.Base64

/-!
# Base64

The standard alphabet with padding.  Three bytes become four digits; one or two bytes left over
become two or three digits and are padded to four.  Reading is strict, so that no two texts stand
for the same bytes: the padding must be there and the bits that it leaves unused must be zero.

* `encode` — the digits for a byte string.
* `decode?` — the bytes that a text in exactly this form stands for.
-/

/-- The digit for a number below 64. -/
def digit (n : Nat) : Char :=
  if n < 26 then Char.ofNat (65 + n)
  else if n < 52 then Char.ofNat (71 + n)
  else if n < 62 then Char.ofNat (n - 4)
  else if n = 62 then '+' else '/'

/-- The number that a digit stands for. -/
def value? (c : Char) : Option Nat :=
  if 'A' ≤ c ∧ c ≤ 'Z' then some (c.toNat - 65)
  else if 'a' ≤ c ∧ c ≤ 'z' then some (c.toNat - 71)
  else if '0' ≤ c ∧ c ≤ '9' then some (c.toNat + 4)
  else if c = '+' then some 62
  else if c = '/' then some 63
  else none

/-- Every digit reads back. -/
theorem value?_digit {n : Nat} (h : n < 64) : value? (digit n) = some n := by
  have : ∀ n : Fin 64, value? (digit n) = some n.val := by decide
  exact this ⟨n, h⟩

/-- The four characters for a block of up to three bytes. -/
def encodeBlock : Bytes → List Char
  | [x] => [digit (x.toNat / 4), digit (x.toNat % 4 * 16), '=', '=']
  | [x, y] =>
    [digit (x.toNat / 4), digit (x.toNat % 4 * 16 + y.toNat / 16), digit (y.toNat % 16 * 4), '=']
  | x :: y :: z :: _ =>
    [digit (x.toNat / 4), digit (x.toNat % 4 * 16 + y.toNat / 16),
      digit (y.toNat % 16 * 4 + z.toNat / 64), digit (z.toNat % 64)]
  | [] => []

/-- The digits for a byte string. -/
def encode (b : Bytes) : List Char := (b.blocks 3).flatMap encodeBlock

/-- Reads groups of four characters, collecting the bytes last first.  Padding may only end the last
    group, where the digit before it has no bits that it does not need. -/
def decodeOnto (done : Bytes) : List Char → Option Bytes
  | [] => some done.reverse
  | [c, d, '=', '='] =>
    match value? c, value? d with
    | some m, some n =>
      if n % 16 = 0 then some (UInt8.ofNat (m * 4 + n / 16) :: done).reverse else none
    | _, _ => none
  | [c, d, e, '='] =>
    match value? c, value? d, value? e with
    | some m, some n, some o =>
      if o % 4 = 0 then
        some (UInt8.ofNat (n % 16 * 16 + o / 4) :: UInt8.ofNat (m * 4 + n / 16) :: done).reverse
      else none
    | _, _, _ => none
  | c :: d :: e :: f :: rest =>
    match value? c, value? d, value? e, value? f with
    | some m, some n, some o, some p =>
      decodeOnto (UInt8.ofNat (o % 4 * 64 + p) :: UInt8.ofNat (n % 16 * 16 + o / 4) ::
        UInt8.ofNat (m * 4 + n / 16) :: done) rest
    | _, _, _, _ => none
  | _ => none

/-- The bytes that a text stands for, if it is written the one way that it can be written. -/
def decode? (digits : List Char) : Option Bytes := decodeOnto [] digits

end Lockbox.Base64
