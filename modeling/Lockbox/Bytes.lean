namespace Lockbox

/-!
# Byte strings

Everything that is hashed, sealed, framed or stored is a `Bytes`, a list of bytes.  This module has
the conversions that the formats share.

* `Bytes.ofText` / `Bytes.toText?` — a text as its UTF-8 bytes, and back where they are valid UTF-8.
* `Bytes.ofNatBE`, `ofNatLE`, `toNatBE`, `toNatLE` — numbers as big- and little-endian bytes.
* `Bytes.blocks` — a byte string cut into blocks of one size, the last one possibly shorter.
* `Bytes.xor` — byte-wise exclusive or.
-/

/-- A byte string. -/
abbrev Bytes := List UInt8

namespace Bytes

/-! ### Texts -/

/-- The UTF-8 bytes of a text. -/
def ofText (s : String) : Bytes := s.toUTF8.data.toList

/-- The text that these bytes encode in UTF-8, if they are valid UTF-8. -/
def toText? (b : Bytes) : Option String := String.fromUTF8? ⟨b.toArray⟩

theorem toText?_ofText (s : String) : toText? (ofText s) = some s := by
  have h : (⟨(ofText s).toArray⟩ : ByteArray) = s.toUTF8 := by simp [ofText]
  unfold toText?
  rw [h]
  simp [String.fromUTF8?, s.isValidUTF8, String.fromUTF8]

theorem ofText_of_toText? {b : Bytes} {s : String} (h : toText? b = some s) : ofText s = b := by
  simp only [toText?, String.fromUTF8?, Option.dite_none_right_eq_some, Option.some.injEq] at h
  obtain ⟨_, rfl⟩ := h
  simp [ofText, String.fromUTF8]

/-! ### Numbers -/

/-- The number whose big-endian digits in base 256 these bytes are. -/
def toNatBE (b : Bytes) : Nat := b.foldl (fun n x => n * 256 + x.toNat) 0

/-- The number whose little-endian digits in base 256 these bytes are. -/
def toNatLE (b : Bytes) : Nat := toNatBE b.reverse

/-- The last `width` little-endian digits of `n` in base 256. -/
def ofNatLE (width n : Nat) : Bytes :=
  (List.range width).map fun i => UInt8.ofNat (n >>> (8 * i))

/-- The last `width` big-endian digits of `n` in base 256. -/
def ofNatBE (width n : Nat) : Bytes := (ofNatLE width n).reverse

@[simp] theorem length_ofNatLE (width n : Nat) : (ofNatLE width n).length = width := by
  simp [ofNatLE]

@[simp] theorem length_ofNatBE (width n : Nat) : (ofNatBE width n).length = width := by
  simp [ofNatBE]

/-! ### Blocks -/

/-- Cuts off blocks of `size` bytes until nothing is left, collecting them last first. -/
def blocksOnto (size : Nat) (done : List Bytes) (b : Bytes) : List Bytes :=
  match b with
  | [] => done.reverse
  | x :: rest => blocksOnto size ((x :: rest.take (size - 1)) :: done) (rest.drop (size - 1))
termination_by b.length
decreasing_by simp only [List.length_drop, List.length_cons]; omega

/-- The blocks of `size` bytes that a byte string consists of, the last one possibly shorter. -/
def blocks (size : Nat) (b : Bytes) : List Bytes := blocksOnto size [] b

theorem blocksOnto_eq (size : Nat) (done : List Bytes) (b : Bytes) :
    blocksOnto size done b = done.reverse ++ blocks size b := by
  suffices ∀ k (done : List Bytes) (b : Bytes), b.length ≤ k →
      blocksOnto size done b = done.reverse ++ blocks size b from
    this b.length done b (Nat.le_refl _)
  intro k
  induction k with
  | zero =>
    intro done b h
    have : b = [] := List.eq_nil_of_length_eq_zero (Nat.le_zero.mp h)
    subst this
    simp [blocks, blocksOnto]
  | succ k ih =>
    intro done b h
    match b with
    | [] => simp [blocks, blocksOnto]
    | x :: rest =>
      have hlen : (rest.drop (size - 1)).length ≤ k := by simp at h ⊢; omega
      unfold blocks
      rw [blocksOnto, ih _ _ hlen]
      conv => rhs; rw [blocksOnto, ih _ _ hlen]
      simp

@[simp] theorem blocks_nil (size : Nat) : blocks size [] = [] := by simp [blocks, blocksOnto]

theorem blocks_cons (size : Nat) (x : UInt8) (rest : Bytes) :
    blocks size (x :: rest) =
      (x :: rest.take (size - 1)) :: blocks size (rest.drop (size - 1)) := by
  rw [blocks, blocksOnto, blocksOnto_eq]; simp

/-! ### Exclusive or -/

/-- Byte-wise exclusive or, as long as the shorter of the two. -/
def xor (a b : Bytes) : Bytes := List.zipWith (· ^^^ ·) a b

@[simp] theorem length_xor (a b : Bytes) : (xor a b).length = min a.length b.length := by
  simp [xor]

/-- A pad that is long enough cancels itself. -/
theorem xor_xor {a pad : Bytes} (h : a.length ≤ pad.length) : xor (xor a pad) pad = a := by
  induction a generalizing pad with
  | nil => simp [xor]
  | cons x a ih =>
    match pad with
    | [] => simp at h
    | p :: pad =>
      have h : a.length ≤ pad.length := by simpa using h
      have hx : x ^^^ p ^^^ p = x := by rw [UInt8.xor_assoc, UInt8.xor_self, UInt8.xor_zero]
      simpa [xor, hx] using ih h

end Bytes

end Lockbox
