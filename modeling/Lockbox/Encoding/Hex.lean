import Lockbox.Bytes

namespace Lockbox.Hex

/-!
# Hexadecimal digits

Bytes written as pairs of hexadecimal digits.  Writing picks one case for the letters; reading takes
both.

* `encode` — two digits for each byte, the high half first.
* `decode?` — the bytes that an even number of digits stands for.
-/

/-- The case of the digits from ten on. -/
inductive Letters
  | lower
  | upper
  deriving DecidableEq, Repr

/-- The digit for a number below sixteen. -/
def digit (letters : Letters) (n : Nat) : Char :=
  if n < 10 then Char.ofNat (48 + n)
  else match letters with
    | .lower => Char.ofNat (87 + n)
    | .upper => Char.ofNat (55 + n)

/-- The number that a digit stands for. -/
def value? (c : Char) : Option Nat :=
  if '0' ≤ c ∧ c ≤ '9' then some (c.toNat - 48)
  else if 'a' ≤ c ∧ c ≤ 'f' then some (c.toNat - 87)
  else if 'A' ≤ c ∧ c ≤ 'F' then some (c.toNat - 55)
  else none

/-- Is this character a hexadecimal digit? -/
def isDigit (c : Char) : Bool := (value? c).isSome

/-- Every digit reads back. -/
theorem value?_digit (letters : Letters) {n : Nat} (h : n < 16) :
    value? (digit letters n) = some n := by
  have : ∀ n : Fin 16, value? (digit letters n) = some n.val := by cases letters <;> decide
  exact this ⟨n, h⟩

/-- The bytes as digits, the high half of each byte first. -/
def encode (letters : Letters) (b : Bytes) : List Char :=
  b.flatMap fun x => [digit letters (x.toNat / 16), digit letters (x.toNat % 16)]

/-- What is written are digits. -/
theorem isDigit_of_mem_encode {letters : Letters} {b : Bytes} {c : Char}
    (h : c ∈ encode letters b) : isDigit c = true := by
  obtain ⟨x, -, hc⟩ := List.mem_flatMap.mp h
  have hx : x.toNat < 256 := x.toNat_lt
  have hdigit : ∀ {n : Nat}, n < 16 → isDigit (digit letters n) = true := by
    intro n hn
    rw [isDigit, value?_digit letters hn]
    rfl
  rw [List.mem_cons, List.mem_singleton] at hc
  rcases hc with rfl | rfl
  · exact hdigit (by omega)
  · exact hdigit (by omega)

@[simp] theorem length_encode (letters : Letters) (b : Bytes) :
    (encode letters b).length = 2 * b.length := by
  induction b with
  | nil => rfl
  | cons x b ih =>
    rw [encode, List.flatMap_cons, List.length_append, ← encode, ih]
    simp only [List.length_cons, List.length_nil]
    omega

/-- No digits are written only where there is nothing to write. -/
theorem encode_eq_nil {letters : Letters} {b : Bytes} : encode letters b = [] ↔ b = [] := by
  cases b <;> simp [encode]

/-- Reads pairs of digits, collecting the bytes last first. -/
def decodeOnto (done : Bytes) : List Char → Option Bytes
  | [] => some done.reverse
  | [_] => none
  | c :: d :: rest =>
    match value? c, value? d with
    | some high, some low => decodeOnto (UInt8.ofNat (16 * high + low) :: done) rest
    | _, _ => none

/-- The bytes that these digits stand for: there is an even number of them and nothing else. -/
def decode? (digits : List Char) : Option Bytes := decodeOnto [] digits

theorem decodeOnto_encode (letters : Letters) (b done : Bytes) :
    decodeOnto done (encode letters b) = some (done.reverse ++ b) := by
  induction b generalizing done with
  | nil => simp [encode, decodeOnto]
  | cons x b ih =>
    have hx : x.toNat < 256 := x.toNat_lt
    have hb : encode letters (x :: b) =
        digit letters (x.toNat / 16) :: digit letters (x.toNat % 16) :: encode letters b := rfl
    have hd : 16 * (x.toNat / 16) + x.toNat % 16 = x.toNat := by omega
    rw [hb, decodeOnto, value?_digit letters (by omega), value?_digit letters (by omega)]
    simp [hd, ih]

/-- What was written reads back. -/
theorem decode?_encode (letters : Letters) (b : Bytes) : decode? (encode letters b) = some b := by
  simp [decode?, decodeOnto_encode]

/-- An even number of digits always stands for bytes, and an odd one never. -/
theorem isSome_decode?_iff {digits : List Char} (h : ∀ c ∈ digits, isDigit c = true) :
    (decode? digits).isSome = true ↔ digits.length % 2 = 0 := by
  suffices ∀ done, (decodeOnto done digits).isSome = true ↔ digits.length % 2 = 0 from this []
  intro done
  fun_induction decodeOnto done digits with
  | case1 done => simp
  | case2 done c => simp
  | case3 done c d rest high low hhigh hlow ih =>
    rw [ih fun e he => h e (by simp [he]), List.length_cons, List.length_cons]
    omega
  | case4 done c d rest hnone =>
    -- Both are digits.
    obtain ⟨high, hhigh⟩ := Option.isSome_iff_exists.mp (h c (by simp))
    obtain ⟨low, hlow⟩ := Option.isSome_iff_exists.mp (h d (by simp))
    exact (hnone high low hhigh hlow).elim

end Lockbox.Hex
