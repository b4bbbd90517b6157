import Lockbox.Encoding.Base64

namespace Lockbox.Base64

/-!
# Base64 read back

Three bytes are four digits of six bits each, and what is left over is padded.

* `decodeOnto_group` — four characters of which the last is no padding.
* `encode_group`, `encode_block` — three bytes and what follows, and the bytes left over.
* `decode?_encode` — every byte string reads back.
* `decode?_eq_some_iff` — only what is written that way is read.
-/

/-- No digit is padding. -/
theorem digit_ne_padding {n : Nat} (h : n < 64) : digit n ≠ '=' := by
  have hall : ∀ n : Fin 64, digit n ≠ '=' := by decide
  exact hall ⟨n, h⟩

/-- Four characters of which the last is no padding. -/
theorem decodeOnto_group (done : Bytes) {m n o p : Nat} (rest : List Char) (hm : m < 64)
    (hn : n < 64) (ho : o < 64) (hp : p < 64) :
    decodeOnto done (digit m :: digit n :: digit o :: digit p :: rest) =
      decodeOnto (UInt8.ofNat (o % 4 * 64 + p) :: UInt8.ofNat (n % 16 * 16 + o / 4) ::
        UInt8.ofNat (m * 4 + n / 16) :: done) rest := by
  rw [decodeOnto]
  · rw [value?_digit hm, value?_digit hn, value?_digit ho, value?_digit hp]
  -- The other ways to read four characters ask for padding at the end.
  · intro _ hpadding
    exact absurd hpadding (digit_ne_padding hp)
  · intro hpadding
    exact absurd hpadding (digit_ne_padding hp)

/-- The digits of three bytes and what follows them. -/
theorem encode_group (x y z : UInt8) (rest : Bytes) :
    encode (x :: y :: z :: rest) = encodeBlock [x, y, z] ++ encode rest := by
  rw [encode, Bytes.blocks_cons]
  rfl

/-- The digits of up to three bytes. -/
theorem encode_block {x : UInt8} {b : Bytes} (h : b.length ≤ 2) :
    encode (x :: b) = encodeBlock (x :: b) := by
  rw [encode, Bytes.blocks_cons, List.take_of_length_le h, List.drop_of_length_le h]
  simp

/-- A byte is what its digits say. -/
theorem ofNat_eq {n : Nat} {x : UInt8} (h : n = x.toNat) : UInt8.ofNat n = x := by
  rw [h, UInt8.ofNat_toNat]

/-- Digits read back, after whatever has been read before. -/
theorem decodeOnto_encode : ∀ b done : Bytes,
    decodeOnto done (encode b) = some (done.reverse ++ b)
  | [], done => by
    rw [encode, Bytes.blocks_nil]
    simp [decodeOnto]
  -- One byte is left: two digits and two signs of padding.
  | [x], done => by
    have hx := x.toNat_lt
    have hfirst : UInt8.ofNat (x.toNat / 4 * 4 + x.toNat % 4 * 16 / 16) = x := ofNat_eq (by omega)
    have hunused : x.toNat % 4 * 16 % 16 = 0 := by omega
    rw [encode_block (by simp), encodeBlock, decodeOnto, value?_digit (by omega),
      value?_digit (by omega)]
    simp only [hunused, if_true, hfirst, List.reverse_cons]
  -- Two bytes are left: three digits and one sign of padding.
  | [x, y], done => by
    have hx := x.toNat_lt
    have hy := y.toNat_lt
    have hfirst : UInt8.ofNat (x.toNat / 4 * 4 + (x.toNat % 4 * 16 + y.toNat / 16) / 16) = x :=
      ofNat_eq (by omega)
    have hsecond : UInt8.ofNat ((x.toNat % 4 * 16 + y.toNat / 16) % 16 * 16 +
        y.toNat % 16 * 4 / 4) = y := ofNat_eq (by omega)
    have hunused : y.toNat % 16 * 4 % 4 = 0 := by omega
    have hdigit : digit (y.toNat % 16 * 4) = '=' → False := digit_ne_padding (by omega)
    rw [encode_block (by simp), encodeBlock, decodeOnto, value?_digit (by omega),
      value?_digit (by omega), value?_digit (by omega)]
    · simp only [hunused, if_true, hfirst, hsecond, List.reverse_cons, List.append_assoc,
        List.singleton_append]
    · exact hdigit
  -- Three bytes are four digits, and the others are read after them.
  | x :: y :: z :: rest, done => by
    have hx := x.toNat_lt
    have hy := y.toNat_lt
    have hz := z.toNat_lt
    have hfirst : UInt8.ofNat (x.toNat / 4 * 4 + (x.toNat % 4 * 16 + y.toNat / 16) / 16) = x :=
      ofNat_eq (by omega)
    have hsecond : UInt8.ofNat ((x.toNat % 4 * 16 + y.toNat / 16) % 16 * 16 +
        (y.toNat % 16 * 4 + z.toNat / 64) / 4) = y := ofNat_eq (by omega)
    have hthird : UInt8.ofNat ((y.toNat % 16 * 4 + z.toNat / 64) % 4 * 64 + z.toNat % 64) = z :=
      ofNat_eq (by omega)
    rw [encode_group, encodeBlock]
    simp only [List.cons_append, List.nil_append]
    rw [decodeOnto_group done (encode rest) (by omega) (by omega) (by omega) (by omega), hfirst,
      hsecond, hthird, decodeOnto_encode rest]
    simp

/-- **What is written reads back.** -/
theorem decode?_encode (b : Bytes) : decode? (encode b) = some b := by
  rw [decode?, decodeOnto_encode]
  simp

/-! ### Nothing else is read -/

/-- A digit is the one for its number. -/
theorem digit_of_value? {c : Char} {n : Nat} (h : value? c = some n) : n < 64 ∧ digit n = c := by
  have hofNat : ∀ {m : Nat}, m = c.toNat → Char.ofNat m = c := by
    rintro m rfl
    exact Char.ofNat_toNat c
  unfold value? at h
  -- The capital letters, the small letters, the decimal digits and the last two.
  split at h
  · rename_i hc
    have hlow : 65 ≤ c.toNat := hc.1
    have hhigh : c.toNat ≤ 90 := hc.2
    obtain rfl := Option.some.inj h
    refine ⟨by omega, ?_⟩
    rw [digit, if_pos (by omega)]
    exact hofNat (by omega)
  split at h
  · rename_i hc
    have hlow : 97 ≤ c.toNat := hc.1
    have hhigh : c.toNat ≤ 122 := hc.2
    obtain rfl := Option.some.inj h
    refine ⟨by omega, ?_⟩
    rw [digit, if_neg (by omega), if_pos (by omega)]
    exact hofNat (by omega)
  split at h
  · rename_i hc
    have hlow : 48 ≤ c.toNat := hc.1
    have hhigh : c.toNat ≤ 57 := hc.2
    obtain rfl := Option.some.inj h
    refine ⟨by omega, ?_⟩
    rw [digit, if_neg (by omega), if_neg (by omega), if_pos (by omega)]
    exact hofNat (by omega)
  split at h
  · subst c
    obtain rfl := Option.some.inj h
    decide
  split at h
  · subst c
    obtain rfl := Option.some.inj h
    decide
  · simp at h

/-- The digits of a byte without unused bits. -/
theorem encode_one {c d : Char} {m n : Nat} (hc : value? c = some m) (hd : value? d = some n)
    (hunused : n % 16 = 0) : encode [UInt8.ofNat (m * 4 + n / 16)] = [c, d, '=', '='] := by
  obtain ⟨hm, rfl⟩ := digit_of_value? hc
  obtain ⟨hn, rfl⟩ := digit_of_value? hd
  have hx : (UInt8.ofNat (m * 4 + n / 16)).toNat = m * 4 + n / 16 := by
    rw [UInt8.toNat_ofNat']
    omega
  rw [encode_block (by simp), encodeBlock, hx, show (m * 4 + n / 16) / 4 = m by omega,
    show (m * 4 + n / 16) % 4 * 16 = n by omega]

/-- The digits of two bytes without unused bits. -/
theorem encode_two {c d e : Char} {m n o : Nat} (hc : value? c = some m) (hd : value? d = some n)
    (he : value? e = some o) (hunused : o % 4 = 0) :
    encode [UInt8.ofNat (m * 4 + n / 16), UInt8.ofNat (n % 16 * 16 + o / 4)] = [c, d, e, '='] := by
  obtain ⟨hm, rfl⟩ := digit_of_value? hc
  obtain ⟨hn, rfl⟩ := digit_of_value? hd
  obtain ⟨ho, rfl⟩ := digit_of_value? he
  have hx : (UInt8.ofNat (m * 4 + n / 16)).toNat = m * 4 + n / 16 := by
    rw [UInt8.toNat_ofNat']
    omega
  have hy : (UInt8.ofNat (n % 16 * 16 + o / 4)).toNat = n % 16 * 16 + o / 4 := by
    rw [UInt8.toNat_ofNat']
    omega
  rw [encode_block (by simp), encodeBlock, hx, hy, show (m * 4 + n / 16) / 4 = m by omega,
    show (m * 4 + n / 16) % 4 * 16 + (n % 16 * 16 + o / 4) / 16 = n by omega,
    show (n % 16 * 16 + o / 4) % 16 * 4 = o by omega]

/-- The digits of three bytes, and of what follows them. -/
theorem encode_three {c d e f : Char} {m n o p : Nat} (hc : value? c = some m)
    (hd : value? d = some n) (he : value? e = some o) (hf : value? f = some p) (rest : Bytes) :
    encode (UInt8.ofNat (m * 4 + n / 16) :: UInt8.ofNat (n % 16 * 16 + o / 4) ::
      UInt8.ofNat (o % 4 * 64 + p) :: rest) = c :: d :: e :: f :: encode rest := by
  obtain ⟨hm, rfl⟩ := digit_of_value? hc
  obtain ⟨hn, rfl⟩ := digit_of_value? hd
  obtain ⟨ho, rfl⟩ := digit_of_value? he
  obtain ⟨hp, rfl⟩ := digit_of_value? hf
  have hx : (UInt8.ofNat (m * 4 + n / 16)).toNat = m * 4 + n / 16 := by
    rw [UInt8.toNat_ofNat']
    omega
  have hy : (UInt8.ofNat (n % 16 * 16 + o / 4)).toNat = n % 16 * 16 + o / 4 := by
    rw [UInt8.toNat_ofNat']
    omega
  have hz : (UInt8.ofNat (o % 4 * 64 + p)).toNat = o % 4 * 64 + p := by
    rw [UInt8.toNat_ofNat']
    omega
  rw [encode_group, encodeBlock, hx, hy, hz, show (m * 4 + n / 16) / 4 = m by omega,
    show (m * 4 + n / 16) % 4 * 16 + (n % 16 * 16 + o / 4) / 16 = n by omega,
    show (n % 16 * 16 + o / 4) % 16 * 4 + (o % 4 * 64 + p) / 64 = o by omega,
    show (o % 4 * 64 + p) % 64 = p by omega]
  rfl

/-- What is read after `done` was written there. -/
theorem encode_of_decodeOnto {done b : Bytes} {digits : List Char}
    (h : decodeOnto done digits = some b) :
    ∃ read, b = done.reverse ++ read ∧ digits = encode read := by
  -- The cases are those of the reader: the end, two ways to pad, and a whole group.
  fun_induction decodeOnto done digits with
  | case1 done =>
    obtain rfl := Option.some.inj h
    exact ⟨[], (List.append_nil _).symm, by rw [encode, Bytes.blocks_nil]; rfl⟩
  | case2 done c d m n hd hc hunused =>
    obtain rfl := Option.some.inj h
    exact ⟨_, List.reverse_cons, (encode_one hc hd hunused).symm⟩
  | case5 done c d e _ m n o he hd hc hunused =>
    obtain rfl := Option.some.inj h
    exact ⟨_, by simp, (encode_two hc hd he hunused).symm⟩
  | case8 done c d e f rest _ _ m n o p hf he hd hc ih =>
    obtain ⟨read, rfl, rfl⟩ := ih h
    exact ⟨_, by simp, (encode_three hc hd he hf read).symm⟩
  | case3 | case4 | case6 | case7 | case9 | case10 => simp at h

/-- **Only what is written reads back**, so no two texts stand for the same bytes. -/
theorem decode?_eq_some_iff {digits : List Char} {b : Bytes} :
    decode? digits = some b ↔ digits = encode b := by
  constructor
  · intro h
    obtain ⟨read, rfl, hdigits⟩ := encode_of_decodeOnto h
    simpa using hdigits
  · rintro rfl
    exact decode?_encode b

end Lockbox.Base64
