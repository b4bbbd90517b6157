import Lockbox.Proofs.Encoding.Base64
import Mathlib.Algebra.Group.Nat.Defs
import Mathlib.Data.List.Basic

namespace Lockbox.Base64

/-!
# Base64 as bits

What a text in Base64 stands for, without a word on how it is read or written: its digits spell the
bits of the bytes, six bits each, filled up with zeros, and signs of padding say how many.

* `bits`, `alphabet`, `Spells` — bits, digits, and what a text spells.
* `bits_append`, `eq_of_bits_eq` — bits in two parts, and the number they are of.
* `Spells.length_eq`, `Spells.mem_alphabet` — how long a text is, and of what characters.
* `spells_encode`, `Spells.unique` — each byte string is spelled in one way only.
* `decode?_eq_some_iff_spells` — just the texts that spell something are read.
-/

/-! ### Bits -/

/-- The lowest bits of a number, so many, the highest one first. -/
def bits : (width n : Nat) → List Bool
  | 0, _ => []
  | width + 1, n => n.testBit width :: bits width n

@[simp] theorem length_bits (width n : Nat) : (bits width n).length = width := by
  induction width with
  | zero => rfl
  | succ width ih => rw [bits, List.length_cons, ih]

theorem bits_eq_iff {width n m : Nat} :
    bits width n = bits width m ↔ ∀ i < width, n.testBit i = m.testBit i := by
  induction width with
  | zero => simp [bits]
  | succ width ih => rw [bits, bits, List.cons.injEq, ih, Nat.forall_lt_succ_right, and_comm]

/-- Bits one after the other. -/
theorem bits_append (width : Nat) {n low : Nat} (high : Nat) (h : low < 2 ^ n) :
    bits (width + n) (high * 2 ^ n + low) = bits width high ++ bits n low := by
  have htest := Nat.testBit_two_pow_mul_add high h
  induction width with
  | zero =>
    rw [Nat.zero_add, bits, List.nil_append, bits_eq_iff]
    intro i hi
    rw [Nat.mul_comm, htest, if_pos hi]
  | succ width ih =>
    rw [Nat.add_right_comm, bits, ih, bits, Nat.mul_comm, htest, if_neg (by omega),
      Nat.add_sub_cancel, List.cons_append]

theorem bits_zero (width : Nat) : bits width 0 = List.replicate width false := by
  induction width with
  | zero => rfl
  | succ width ih => rw [bits, ih, Nat.zero_testBit, List.replicate_succ]

/-- The bits of a number with zeros after them. -/
theorem bits_shift (width high n : Nat) :
    bits (width + n) (high * 2 ^ n) = bits width high ++ List.replicate n false := by
  rw [← bits_zero, ← bits_append width high (Nat.two_pow_pos n), Nat.add_zero]

/-- The bits of any number in two parts. -/
theorem bits_byte (width n x : Nat) :
    bits (width + n) x = bits width (x / 2 ^ n) ++ bits n (x % 2 ^ n) := by
  rw [← bits_append width _ (Nat.mod_lt x (Nat.two_pow_pos n)), Nat.div_add_mod']

/-- There are enough bits for a number. -/
theorem eq_of_bits_eq {width n m : Nat} (hn : n < 2 ^ width) (hm : m < 2 ^ width)
    (h : bits width n = bits width m) : n = m := by
  apply Nat.eq_of_testBit_eq
  intro i
  by_cases hi : i < width
  · exact bits_eq_iff.mp h i hi
  · have hle : 2 ^ width ≤ 2 ^ i := Nat.pow_le_pow_right (by decide) (Nat.le_of_not_lt hi)
    rw [Nat.testBit_lt_two_pow (Nat.lt_of_lt_of_le hn hle),
      Nat.testBit_lt_two_pow (Nat.lt_of_lt_of_le hm hle)]

/-- Numbers that fit a width are told by their bits one after the other. -/
theorem eq_of_flatMap_bits_eq {width : Nat} (hwidth : 0 < width) {values others : List Nat}
    (hvalues : ∀ n ∈ values, n < 2 ^ width) (hothers : ∀ n ∈ others, n < 2 ^ width)
    (h : values.flatMap (bits width) = others.flatMap (bits width)) : values = others := by
  induction values generalizing others with
  | nil =>
    cases others with
    | nil => rfl
    | cons m others =>
      have hlength := congrArg List.length h
      simp at hlength
      omega
  | cons n values ih =>
    cases others with
    | nil =>
      have hlength := congrArg List.length h
      simp at hlength
      omega
    | cons m others =>
      obtain ⟨hn, hvalues⟩ := List.forall_mem_cons.mp hvalues
      obtain ⟨hm, hothers⟩ := List.forall_mem_cons.mp hothers
      rw [List.flatMap_cons, List.flatMap_cons] at h
      obtain ⟨hfirst, hmore⟩ := List.append_inj h (by rw [length_bits, length_bits])
      rw [eq_of_bits_eq hn hm hfirst, ih hvalues hothers hmore]

/-! ### Digits -/

/-- The digits, in the order of the numbers that they stand for. -/
def alphabet : List Char :=
  "ABCDEFGHIJKLMNOPQRSTUVWXYZabcdefghijklmnopqrstuvwxyz0123456789+/".toList

theorem alphabet_getElem? {n : Nat} (h : n < 64) : alphabet[n]? = some (digit n) := by
  have hall : ∀ n : Fin 64, alphabet[n.val]? = some (digit n) := by decide +kernel
  exact hall ⟨n, h⟩

theorem lt_of_alphabet_getElem? {n : Nat} {c : Char} (h : alphabet[n]? = some c) : n < 64 := by
  obtain ⟨hlt, -⟩ := List.getElem?_eq_some_iff.mp h
  exact hlt

/-- Does the text spell these bytes?  The bits of its digits are those of the bytes and zeros, two
    of them for each sign of padding. -/
def Spells (text : List Char) (b : Bytes) : Prop :=
  ∃ (values : List Nat) (padding : Nat), padding ≤ 2 ∧
    text.map some = values.map (alphabet[·]?) ++ List.replicate padding (some '=') ∧
    values.flatMap (bits 6) =
      b.flatMap (fun x => bits 8 x.toNat) ++ List.replicate (2 * padding) false

/-- The numbers of a text that spells something fit six bits. -/
theorem lt_of_map_alphabet {text : List Char} {values : List Nat} {more : List (Option Char)}
    (h : text.map some = values.map (alphabet[·]?) ++ more) : ∀ n ∈ values, n < 64 := by
  intro n hn
  have hmem : alphabet[n]? ∈ text.map some := by
    rw [h]
    exact List.mem_append_left _ (List.mem_map_of_mem hn)
  obtain ⟨c, -, hc⟩ := List.mem_map.mp hmem
  exact lt_of_alphabet_getElem? hc.symm

/-- How many digits and signs of padding there are is told by how many bytes are spelled. -/
theorem length_of_bits_eq {values : List Nat} {b : Bytes} {padding : Nat}
    (h : values.flatMap (bits 6) =
      b.flatMap (fun x => bits 8 x.toNat) ++ List.replicate (2 * padding) false) :
    6 * values.length = 8 * b.length + 2 * padding := by
  have hlength := congrArg List.length h
  simp at hlength
  omega

/-- Three bytes, or the last ones, take four characters. -/
theorem Spells.length_eq {text : List Char} {b : Bytes} (h : Spells text b) :
    text.length = 4 * ((b.length + 2) / 3) := by
  obtain ⟨values, padding, hpadding, htext, hbits⟩ := h
  have hdigits := length_of_bits_eq hbits
  have hlength := congrArg List.length htext
  simp only [List.length_map, List.length_append, List.length_replicate] at hlength
  omega

/-- There are no other characters than digits and signs of padding. -/
theorem Spells.mem_alphabet {text : List Char} {b : Bytes} (h : Spells text b) {c : Char}
    (hc : c ∈ text) : c ∈ alphabet ∨ c = '=' := by
  obtain ⟨values, padding, -, htext, -⟩ := h
  have hmem : some c ∈ text.map some := List.mem_map_of_mem hc
  rw [htext, List.mem_append] at hmem
  rcases hmem with hdigit | hpadding
  · obtain ⟨n, -, hn⟩ := List.mem_map.mp hdigit
    exact .inl (List.mem_of_getElem? hn)
  · exact .inr (Option.some.inj (List.eq_of_mem_replicate hpadding))

/-- Bytes are spelled in one way only. -/
theorem Spells.unique {text other : List Char} {b : Bytes} (h : Spells text b)
    (hother : Spells other b) : text = other := by
  obtain ⟨values, padding, hpadding, htext, hbits⟩ := h
  obtain ⟨values', padding', hpadding', htext', hbits'⟩ := hother
  -- The digits are whole numbers of bits, so the padding is the same.
  have hlength := length_of_bits_eq hbits
  have hlength' := length_of_bits_eq hbits'
  obtain rfl : padding = padding' := by omega
  have hvalues : values = values' := by
    apply eq_of_flatMap_bits_eq (show 0 < 6 by decide) (lt_of_map_alphabet htext)
      (lt_of_map_alphabet htext')
    rw [hbits, hbits']
  apply List.map_injective_iff.mpr fun _ _ => Option.some.inj
  rw [htext, htext', hvalues]

/-! ### What is written and read -/

/-- The bits of one byte in two digits, with four zeros. -/
theorem bits_one (x : Nat) :
    bits 6 (x / 4) ++ bits 6 (x % 4 * 16) = bits 8 x ++ List.replicate 4 false := by
  have hx : bits 8 x = bits 6 (x / 4) ++ bits 2 (x % 4) := bits_byte 6 2 x
  have hlast : bits 6 (x % 4 * 16) = bits 2 (x % 4) ++ List.replicate 4 false :=
    bits_shift 2 (x % 4) 4
  rw [hx, hlast, List.append_assoc]

/-- The bits of two bytes in three digits, with two zeros. -/
theorem bits_two (x : Nat) {y : Nat} (hlt : y < 256) :
    bits 6 (x / 4) ++ bits 6 (x % 4 * 16 + y / 16) ++ bits 6 (y % 16 * 4) =
      bits 8 x ++ bits 8 y ++ List.replicate 2 false := by
  have hx : bits 8 x = bits 6 (x / 4) ++ bits 2 (x % 4) := bits_byte 6 2 x
  have hy : bits 8 y = bits 4 (y / 16) ++ bits 4 (y % 16) := bits_byte 4 4 y
  have hmiddle : bits 6 (x % 4 * 16 + y / 16) = bits 2 (x % 4) ++ bits 4 (y / 16) :=
    bits_append 2 (x % 4) (show y / 16 < 2 ^ 4 by omega)
  have hlast : bits 6 (y % 16 * 4) = bits 4 (y % 16) ++ List.replicate 2 false :=
    bits_shift 4 (y % 16) 2
  simp only [hx, hy, hmiddle, hlast, List.append_assoc]

/-- The bits of three bytes in four digits. -/
theorem bits_three (x : Nat) {y z : Nat} (hy : y < 256) (hz : z < 256) :
    bits 6 (x / 4) ++ bits 6 (x % 4 * 16 + y / 16) ++ bits 6 (y % 16 * 4 + z / 64) ++
      bits 6 (z % 64) = bits 8 x ++ bits 8 y ++ bits 8 z := by
  have hx : bits 8 x = bits 6 (x / 4) ++ bits 2 (x % 4) := bits_byte 6 2 x
  have hsecond : bits 6 (x % 4 * 16 + y / 16) = bits 2 (x % 4) ++ bits 4 (y / 16) :=
    bits_append 2 (x % 4) (show y / 16 < 2 ^ 4 by omega)
  have hy : bits 8 y = bits 4 (y / 16) ++ bits 4 (y % 16) := bits_byte 4 4 y
  have hthird : bits 6 (y % 16 * 4 + z / 64) = bits 4 (y % 16) ++ bits 2 (z / 64) :=
    bits_append 4 (y % 16) (show z / 64 < 2 ^ 2 by omega)
  have hz : bits 8 z = bits 2 (z / 64) ++ bits 6 (z % 64) := bits_byte 2 6 z
  simp only [hx, hy, hz, hsecond, hthird, List.append_assoc]

/-- What is written spells the bytes. -/
theorem spells_encode : ∀ b : Bytes, Spells (encode b) b
  | [] => ⟨[], 0, by decide, by rw [encode, Bytes.blocks_nil]; rfl, rfl⟩
  -- One byte is left: two digits and two signs of padding.
  | [x] => by
    have hx := x.toNat_lt
    refine ⟨[x.toNat / 4, x.toNat % 4 * 16], 2, by decide, ?_, ?_⟩
    · rw [encode_block (by simp), encodeBlock]
      simp only [List.map_cons, List.map_nil]
      rw [alphabet_getElem? (by omega), alphabet_getElem? (by omega)]
      rfl
    · simpa using bits_one x.toNat
  -- Two bytes are left: three digits and one sign of padding.
  | [x, y] => by
    have hx := x.toNat_lt
    have hy := y.toNat_lt
    refine ⟨[x.toNat / 4, x.toNat % 4 * 16 + y.toNat / 16, y.toNat % 16 * 4], 1, by decide, ?_, ?_⟩
    · rw [encode_block (by simp), encodeBlock]
      simp only [List.map_cons, List.map_nil]
      rw [alphabet_getElem? (by omega), alphabet_getElem? (by omega), alphabet_getElem? (by omega)]
      rfl
    · simpa using bits_two x.toNat hy
  -- Three bytes are four digits, and the others are spelled after them.
  | x :: y :: z :: rest => by
    have hx := x.toNat_lt
    have hy := y.toNat_lt
    have hz := z.toNat_lt
    obtain ⟨values, padding, hpadding, htext, hbits⟩ := spells_encode rest
    refine ⟨x.toNat / 4 :: (x.toNat % 4 * 16 + y.toNat / 16) ::
      (y.toNat % 16 * 4 + z.toNat / 64) :: z.toNat % 64 :: values, padding, hpadding, ?_, ?_⟩
    · rw [encode_group, encodeBlock, List.map_append, htext]
      simp only [List.map_cons, List.map_nil]
      rw [alphabet_getElem? (by omega), alphabet_getElem? (by omega), alphabet_getElem? (by omega),
        alphabet_getElem? (by omega)]
      rfl
    · simp only [List.flatMap_cons, hbits, ← List.append_assoc]
      rw [bits_three x.toNat hy hz]

/-- **Just the texts that spell bytes are read**, as the bytes that they spell. -/
theorem decode?_eq_some_iff_spells {text : List Char} {b : Bytes} :
    decode? text = some b ↔ Spells text b := by
  rw [decode?_eq_some_iff]
  constructor
  · rintro rfl
    exact spells_encode b
  · intro h
    exact h.unique (spells_encode b)

end Lockbox.Base64
