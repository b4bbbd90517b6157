import Lockbox.Encoding.Utf8
import Lockbox.Proofs.Bytes
import Mathlib.Data.List.TakeWhile
import Mathlib.Tactic.IntervalCases
import Mathlib.Tactic.SplitIfs

namespace Lockbox

/-!
# Reading bytes as text

Bytes are read as a text character by character, and what is not valid becomes replacement
characters.  Valid UTF-8 comes out as it is.  A byte below 128 is a character wherever it stands and
belongs to no other one, so a text can be cut before it is read where it can be cut afterwards.

* `Utf8.chars`, `toTextLossy_eq` — the characters of bytes, valid or not.
* `Utf8.chars_append` — bytes that are cut at an ASCII character.
* `Utf8.mem_of_mem_chars`, `chars_eq_iff` — where ASCII characters come from.
* `Utf8.next_utf8EncodeChar`, `chars_ofText` — the characters of valid UTF-8.
-/

namespace Utf8

variable {x : UInt8} {rest : Bytes}

/-! ### Character by character -/

/-- The characters of bytes, with replacements for what is not valid. -/
def chars (b : Bytes) : List Char := repairOnto [] b

@[simp] theorem chars_nil : chars [] = [] := by
  rw [chars, repairOnto, List.reverse_nil]

theorem repairOnto_append (done more : List Char) (b : Bytes) :
    repairOnto (done ++ more) b = more.reverse ++ repairOnto done b := by
  -- On what is read, for any characters that have been read before.
  fun_induction repairOnto done b with
  | case1 done => rw [repairOnto, List.reverse_append]
  | case2 done x rest c size hnext ih =>
    rw [repairOnto, hnext]
    exact ih

theorem chars_cons (x : UInt8) (rest : Bytes) :
    chars (x :: rest) = (next x rest).1 :: chars (rest.drop (next x rest).2) := by
  rw [chars, repairOnto]
  exact repairOnto_append [] [(next x rest).1] _

/-! ### What a first byte announces -/

/-- What is announced is a code above 127: the second byte is a high one, and the bits of both bytes
    are enough for that. -/
theorem lead?_bounds {lead : Lead} (h : lead? x = some lead) :
    0x80 ≤ lead.low.toNat ∧ 1 ≤ lead.size ∧
      (2 ≤ lead.bits ∨ 2 ≤ lead.size ∧ 2 ≤ lead.bits * 64 + (lead.low.toNat - 0x80)) := by
  unfold lead? at h
  split_ifs at h with htwo _ _ hthree _ hfour _
  all_goals obtain rfl := Option.some.inj h
  · have hfirst : 0xc2 ≤ x.toNat := UInt8.le_iff_toNat_le.mp htwo.1
    exact ⟨by simp, by simp, .inl (by simp; omega)⟩
  · decide
  · decide
  · have hfirst : 0xe1 ≤ x.toNat := UInt8.le_iff_toNat_le.mp hthree.1
    exact ⟨by simp, by simp, .inr ⟨by simp, by simp; omega⟩⟩
  · decide
  · have hfirst : 0xf1 ≤ x.toNat := UInt8.le_iff_toNat_le.mp hfour.1
    exact ⟨by simp, by simp, .inr ⟨by simp, by simp; omega⟩⟩
  · decide

/-- A byte below 128 is a character. -/
theorem next_ascii (h : x < 0x80) (rest : Bytes) : next x rest = (Char.ofNat x.toNat, 0) := if_pos h

theorem continuation_cons (lead : Lead) (y : UInt8) (rest : Bytes) :
    lead.continuation (y :: rest) =
      if lead.low ≤ y ∧ y ≤ lead.high then
        y :: (rest.take (lead.size - 1)).takeWhile isContinuation
      else [] := rfl

/-- What belongs to a character is among the bytes that follow. -/
theorem length_continuation_le (lead : Lead) (rest : Bytes) :
    (lead.continuation rest).length ≤ rest.length := by
  cases rest with
  | nil => exact Nat.le_refl 0
  | cons y rest =>
    rw [continuation_cons]
    split
    · have htaken := (List.takeWhile_sublist isContinuation).trans
        (List.take_sublist (lead.size - 1) rest)
      exact Nat.succ_le_succ htaken.length_le
    · exact Nat.zero_le _

theorem size_next_le (x : UInt8) (rest : Bytes) : (next x rest).2 ≤ rest.length := by
  unfold next
  split
  · exact Nat.zero_le _
  · split
    · exact Nat.zero_le _
    · rename_i lead _
      dsimp only
      split
      · rename_i hsize
        exact hsize ▸ length_continuation_le lead rest
      · exact length_continuation_le lead rest

/-- What is taken while something holds ends where it does not. -/
theorem takeWhile_take_append {p : UInt8 → Bool} {d : UInt8} (hd : p d = false) (size : Nat)
    (rest more : Bytes) :
    ((rest ++ d :: more).take size).takeWhile p = (rest.take size).takeWhile p := by
  induction rest generalizing size with
  | nil =>
    cases size with
    | zero => rfl
    | succ size =>
      rw [List.nil_append, List.take_succ_cons, List.takeWhile_cons_of_neg (by simp [hd])]
      rfl
  | cons y rest ih =>
    cases size with
    | zero => rfl
    | succ size =>
      rw [List.cons_append, List.take_succ_cons, List.take_succ_cons, List.takeWhile_cons,
        List.takeWhile_cons, ih]

/-- Bytes below 128 belong to no other character. -/
theorem continuation_append {lead : Lead} (hlow : 0x80 ≤ lead.low.toNat) {d : UInt8} (hd : d < 0x80)
    (rest more : Bytes) : lead.continuation (rest ++ d :: more) = lead.continuation rest := by
  have hsmall : d.toNat < 0x80 := UInt8.lt_iff_toNat_lt.mp hd
  cases rest with
  | nil =>
    rw [List.nil_append, continuation_cons]
    refine if_neg fun h => ?_
    have := UInt8.le_iff_toNat_le.mp h.1
    omega
  | cons y rest =>
    have hends : isContinuation d = false := by
      unfold isContinuation
      rw [Bool.and_eq_false_iff]
      exact .inl (decide_eq_false (UInt8.not_le.mpr hd))
    rw [List.cons_append, continuation_cons, continuation_cons, takeWhile_take_append hends]

theorem next_append {d : UInt8} (hd : d < 0x80) (x : UInt8) (rest more : Bytes) :
    next x (rest ++ d :: more) = next x rest := by
  unfold next
  split
  · rfl
  · cases hlead : lead? x with
    | none => rfl
    | some lead =>
      dsimp only
      rw [continuation_append (lead?_bounds hlead).1 hd]

/-- **Bytes are read as text piece by piece**, where they are cut at bytes below 128. -/
theorem chars_append {d : UInt8} (hd : d < 0x80) (b more : Bytes) :
    chars (b ++ d :: more) = chars b ++ Char.ofNat d.toNat :: chars more := by
  -- On the bytes before the cut; what a first byte takes with it is not beyond it.
  induction hlength : b.length using Nat.strongRecOn generalizing b with
  | ind length ih =>
    cases b with
    | nil =>
      rw [List.nil_append, chars_cons, next_ascii hd, chars_nil]
      rfl
    | cons x rest =>
      have hsize := size_next_le x rest
      have hshort : (rest.drop (next x rest).2).length < length := by
        rw [← hlength, List.length_drop, List.length_cons]
        omega
      rw [List.cons_append, chars_cons, next_append hd, List.drop_append_of_le_length hsize,
        ih _ hshort _ rfl, chars_cons]
      rfl

/-! ### Characters of one byte -/

theorem le_foldl (code : Nat) (more : Bytes) :
    code ≤ more.foldl (fun n y => n * 64 + (y.toNat - 0x80)) code := by
  induction more generalizing code with
  | nil => exact Nat.le_refl code
  | cons y more ih =>
    rw [List.foldl_cons]
    exact Nat.le_trans (by omega) (ih _)

/-- The codes that are made of several bytes are above 127. -/
theorem le_code {lead : Lead} (hlead : lead? x = some lead)
    (hsize : (lead.continuation rest).length = lead.size) :
    0x80 ≤ (lead.continuation rest).foldl (fun n y => n * 64 + (y.toNat - 0x80)) lead.bits := by
  obtain ⟨-, hone, hbits⟩ := lead?_bounds hlead
  cases rest with
  | nil =>
    rw [show lead.continuation [] = [] from rfl, List.length_nil] at hsize
    omega
  | cons y rest =>
    rw [continuation_cons] at hsize ⊢
    split at hsize
    · rename_i hy
      have hlow := UInt8.le_iff_toNat_le.mp hy.1
      rw [if_pos hy, List.foldl_cons]
      rcases hbits with htwo | ⟨hmore, htwo⟩
      · exact Nat.le_trans (by omega) (le_foldl _ _)
      -- The bits of the first two bytes may be few, but they are followed by those of a third.
      · cases hthird : (rest.take (lead.size - 1)).takeWhile isContinuation with
        | nil =>
          rw [hthird, List.length_singleton] at hsize
          omega
        | cons z others =>
          rw [List.foldl_cons]
          exact Nat.le_trans (by omega) (le_foldl _ _)
    · rw [List.length_nil] at hsize
      omega

/-- The byte of an ASCII character is that character. -/
theorem next_ofNat {c : Char} (hc : c.toNat < 0x80) (rest : Bytes) :
    next (UInt8.ofNat c.toNat) rest = (c, 0) := by
  have hbyte : (UInt8.ofNat c.toNat).toNat = c.toNat := by
    rw [UInt8.toNat_ofNat']
    omega
  have hsmall : UInt8.ofNat c.toNat < 0x80 := by
    rw [UInt8.lt_iff_toNat_lt, hbyte]
    exact hc
  rw [next_ascii hsmall, hbyte, Char.ofNat_toNat]

/-- No other byte is, unless it is the first character of all. -/
theorem eq_of_next {c : Char} (hc : c.toNat < 0x80) (hne : c ≠ '\x00')
    (h : (next x rest).1 = c) : x = UInt8.ofNat c.toNat := by
  by_cases hx : x < 0x80
  · have hbyte : (Char.ofNat x.toNat).toNat = x.toNat := by
      have hsmall : x.toNat < 0x80 := UInt8.lt_iff_toNat_lt.mp hx
      have hvalid : x.toNat.isValidChar := .inl (by omega)
      rw [Char.ofNat, dif_pos hvalid]
      rfl
    rw [next_ascii hx] at h
    rw [← h, hbyte, UInt8.ofNat_toNat]
  · exfalso
    have hreplacement : replacement ≠ c := by
      rintro rfl
      exact absurd hc (by decide)
    unfold next at h
    rw [if_neg hx] at h
    cases hlead : lead? x with
    | none =>
      rw [hlead] at h
      exact hreplacement h
    | some lead =>
      rw [hlead] at h
      dsimp only at h
      split at h
      · rename_i hsize
        have hcode := le_code hlead hsize
        generalize (lead.continuation rest).foldl _ lead.bits = code at h hcode
        unfold Char.ofNat at h
        by_cases hvalid : code.isValidChar
        · rw [dif_pos hvalid] at h
          rw [← h] at hc
          exact absurd hc (Nat.not_lt.mpr hcode)
        -- A number that is no code stands for the first character.
        · rw [dif_neg hvalid] at h
          exact hne h.symm
      · exact hreplacement h

/-- The byte of an ASCII character. -/
theorem utf8EncodeChar_ascii {c : Char} (hc : c.toNat < 0x80) :
    String.utf8EncodeChar c = [UInt8.ofNat c.toNat] := by
  have hle : c.val.toNat ≤ 127 := Nat.le_of_lt_succ hc
  unfold String.utf8EncodeChar
  exact if_pos hle

/-- An ASCII character that is read comes from its byte. -/
theorem mem_of_mem_chars {c : Char} (hc : c.toNat < 0x80) (hne : c ≠ '\x00') {b : Bytes}
    (h : c ∈ chars b) : UInt8.ofNat c.toNat ∈ b := by
  induction hlength : b.length using Nat.strongRecOn generalizing b with
  | ind length ih =>
    cases b with
    | nil =>
      rw [chars_nil] at h
      cases h
    | cons x rest =>
      rw [chars_cons] at h
      rcases List.mem_cons.mp h with hfirst | hlater
      · rw [eq_of_next hc hne hfirst.symm]
        exact List.mem_cons_self
      · have hshort : (rest.drop (next x rest).2).length < length := by
          rw [← hlength, List.length_drop, List.length_cons]
          omega
        exact List.mem_cons_of_mem x (List.mem_of_mem_drop (ih _ hshort hlater rfl))

/-- A text of ASCII characters is read from its own bytes only. -/
theorem chars_eq_iff {text : List Char} (h : ∀ c ∈ text, c.toNat < 0x80 ∧ c ≠ '\x00') {b : Bytes} :
    chars b = text ↔ b = text.flatMap String.utf8EncodeChar := by
  induction text generalizing b with
  | nil =>
    cases b with
    | nil => simp
    | cons x rest => simp [chars_cons]
  | cons c text ih =>
    obtain ⟨⟨hc, hne⟩, hrest⟩ := List.forall_mem_cons.mp h
    rw [List.flatMap_cons, utf8EncodeChar_ascii hc, List.singleton_append]
    cases b with
    | nil => simp
    | cons x rest =>
      rw [chars_cons, List.cons.injEq, List.cons.injEq]
      constructor
      · rintro ⟨hfirst, hlater⟩
        obtain rfl := eq_of_next hc hne hfirst
        rw [next_ofNat hc] at hlater
        exact ⟨rfl, (ih hrest).mp hlater⟩
      · rintro ⟨rfl, hlater⟩
        rw [next_ofNat hc]
        exact ⟨rfl, (ih hrest).mpr hlater⟩

/-! ### Valid UTF-8 -/

/-- What is announced is a character of so many bytes, if its bytes follow. -/
theorem next_of_lead {lead : Lead} (hx : ¬ x < 0x80) (hlead : lead? x = some lead) {y : UInt8}
    {more : Bytes} (hy : lead.low ≤ y ∧ y ≤ lead.high) (hsize : more.length + 1 = lead.size)
    (hmore : ∀ z ∈ more, isContinuation z) (rest : Bytes) :
    next x (y :: more ++ rest) =
      (Char.ofNat ((y :: more).foldl (fun n y => n * 64 + (y.toNat - 0x80)) lead.bits),
        lead.size) := by
  have htaken : (more ++ rest).take (lead.size - 1) = more := by
    rw [← hsize, Nat.add_sub_cancel, List.take_left]
  have hcontinuation : lead.continuation (y :: more ++ rest) = y :: more := by
    rw [List.cons_append, continuation_cons, if_pos hy, htaken,
      List.takeWhile_eq_self_iff.mpr hmore]
  unfold next
  rw [if_neg hx, hlead]
  dsimp only
  rw [hcontinuation, if_pos (by rw [List.length_cons, hsize])]

/-- What the first of two bytes announces. -/
theorem lead?_two {n : Nat} (hlow : 0xc2 ≤ n) (hhigh : n ≤ 0xdf) :
    lead? (UInt8.ofNat n) = some ⟨n - 0xc0, 1, 0x80, 0xbf⟩ := by
  interval_cases n <;> rfl

/-- What the first of three bytes announces. -/
theorem lead?_three {n : Nat} (hlow : 0xe0 ≤ n) (hhigh : n ≤ 0xef) :
    lead? (UInt8.ofNat n) = some ⟨n - 0xe0, 2, if n = 0xe0 then 0xa0 else 0x80,
      if n = 0xed then 0x9f else 0xbf⟩ := by
  interval_cases n <;> rfl

/-- What the first of four bytes announces. -/
theorem lead?_four {n : Nat} (hlow : 0xf0 ≤ n) (hhigh : n ≤ 0xf4) :
    lead? (UInt8.ofNat n) = some ⟨n - 0xf0, 3, if n = 0xf0 then 0x90 else 0x80,
      if n = 0xf4 then 0x8f else 0xbf⟩ := by
  interval_cases n <;> rfl

theorem toNat_ofNat_of_lt {n : Nat} (h : n < 256) : (UInt8.ofNat n).toNat = n := by
  rw [UInt8.toNat_ofNat']
  omega

/-- The bytes that follow a first one. -/
theorem isContinuation_ofNat {n : Nat} (h : n < 64) : isContinuation (UInt8.ofNat (n + 128)) := by
  unfold isContinuation
  rw [Bool.and_eq_true, decide_eq_true_eq, decide_eq_true_eq, UInt8.le_iff_toNat_le,
    UInt8.le_iff_toNat_le, toNat_ofNat_of_lt (by omega)]
  exact ⟨Nat.le_add_left 128 n, by show n + 128 ≤ 191; omega⟩

/-- A byte above 127 is no character. -/
theorem not_ascii_ofNat {n : Nat} (hlow : 0x80 ≤ n) (hhigh : n < 256) :
    ¬ UInt8.ofNat n < 0x80 := by
  rw [UInt8.lt_iff_toNat_lt, toNat_ofNat_of_lt hhigh]
  exact Nat.not_lt.mpr hlow

theorem ofNat_between {low high : UInt8} {n : Nat} (hlow : low.toNat ≤ n) (hhigh : n ≤ high.toNat) :
    low ≤ UInt8.ofNat n ∧ UInt8.ofNat n ≤ high := by
  have hbyte := toNat_ofNat_of_lt (Nat.lt_of_le_of_lt hhigh high.toNat_lt)
  rw [UInt8.le_iff_toNat_le, UInt8.le_iff_toNat_le, hbyte]
  exact ⟨hlow, hhigh⟩

/-- What the bytes after the first one contribute. -/
theorem foldl_ofNat (code : Nat) {n : Nat} (h : n < 64) (more : Bytes) :
    (UInt8.ofNat (n + 128) :: more).foldl (fun n y => n * 64 + (y.toNat - 0x80)) code =
      more.foldl (fun n y => n * 64 + (y.toNat - 0x80)) (code * 64 + n) := by
  rw [List.foldl_cons, toNat_ofNat_of_lt (by omega), Nat.add_sub_cancel]

/-- A code of two bytes. -/
theorem next_two {v : Nat} (hlow : 0x7f < v) (hhigh : v ≤ 0x7ff) (rest : Bytes) :
    next (UInt8.ofNat (v / 64 % 32 + 192)) (UInt8.ofNat (v % 64 + 128) :: rest) =
      (Char.ofNat v, 1) := by
  have hcode : (v / 64 % 32 + 192 - 0xc0) * 64 + v % 64 = v := by omega
  have hsecond : (0x80 : UInt8) ≤ UInt8.ofNat (v % 64 + 128) ∧
      UInt8.ofNat (v % 64 + 128) ≤ 0xbf :=
    ofNat_between (Nat.le_add_left 128 _) (by show _ ≤ 191; omega)
  have hlead : lead? (UInt8.ofNat (v / 64 % 32 + 192)) = _ := lead?_two (by omega) (by omega)
  have hnext := next_of_lead (not_ascii_ofNat (by omega) (by omega)) hlead hsecond rfl
    (List.forall_mem_nil _) rest
  rw [foldl_ofNat _ (by omega), List.foldl_nil, hcode] at hnext
  exact hnext

/-- A code of three bytes.  The second byte is not one of an overlong form or of a surrogate. -/
theorem next_three {v : Nat} (hlow : 0x7ff < v) (hhigh : v ≤ 0xffff)
    (hcode : v < 0xd800 ∨ 0xdfff < v) (rest : Bytes) :
    next (UInt8.ofNat (v / 4096 % 16 + 224))
      (UInt8.ofNat (v / 64 % 64 + 128) :: UInt8.ofNat (v % 64 + 128) :: rest) =
        (Char.ofNat v, 2) := by
  have hsum : ((v / 4096 % 16 + 224 - 0xe0) * 64 + v / 64 % 64) * 64 + v % 64 = v := by omega
  have hleast : (if v / 4096 % 16 + 224 = 0xe0 then 0xa0 else 0x80 : UInt8).toNat ≤
      v / 64 % 64 + 128 := by
    split
    · show 160 ≤ _
      omega
    · exact Nat.le_add_left 128 _
  have hgreatest : v / 64 % 64 + 128 ≤
      (if v / 4096 % 16 + 224 = 0xed then 0x9f else 0xbf : UInt8).toNat := by
    split
    · show _ ≤ 159
      omega
    · show _ ≤ 191
      omega
  have hmore : ∀ z ∈ [UInt8.ofNat (v % 64 + 128)], isContinuation z = true :=
    List.forall_mem_singleton.mpr (isContinuation_ofNat (by omega))
  have hlead : lead? (UInt8.ofNat (v / 4096 % 16 + 224)) = _ := lead?_three (by omega) (by omega)
  have hnext := next_of_lead (not_ascii_ofNat (by omega) (by omega)) hlead
    (ofNat_between hleast hgreatest) rfl hmore rest
  rw [foldl_ofNat _ (by omega), foldl_ofNat _ (by omega), List.foldl_nil, hsum] at hnext
  exact hnext

/-- A code of four bytes.  The second byte is not one of an overlong form or above all codes. -/
theorem next_four {v : Nat} (hlow : 0xffff < v) (hcode : v < 0x110000) (rest : Bytes) :
    next (UInt8.ofNat (v / 262144 % 8 + 240))
      (UInt8.ofNat (v / 4096 % 64 + 128) :: UInt8.ofNat (v / 64 % 64 + 128) ::
        UInt8.ofNat (v % 64 + 128) :: rest) = (Char.ofNat v, 3) := by
  have hsum : (((v / 262144 % 8 + 240 - 0xf0) * 64 + v / 4096 % 64) * 64 + v / 64 % 64) * 64 +
    v % 64 = v := by omega
  have hleast : (if v / 262144 % 8 + 240 = 0xf0 then 0x90 else 0x80 : UInt8).toNat ≤
      v / 4096 % 64 + 128 := by
    split
    · show 144 ≤ _
      omega
    · exact Nat.le_add_left 128 _
  have hgreatest : v / 4096 % 64 + 128 ≤
      (if v / 262144 % 8 + 240 = 0xf4 then 0x8f else 0xbf : UInt8).toNat := by
    split
    · show _ ≤ 143
      omega
    · show _ ≤ 191
      omega
  have hmore : ∀ z ∈ [UInt8.ofNat (v / 64 % 64 + 128), UInt8.ofNat (v % 64 + 128)],
      isContinuation z = true :=
    List.forall_mem_cons.mpr ⟨isContinuation_ofNat (by omega),
      List.forall_mem_singleton.mpr (isContinuation_ofNat (by omega))⟩
  have hlead : lead? (UInt8.ofNat (v / 262144 % 8 + 240)) = _ := lead?_four (by omega) (by omega)
  have hnext := next_of_lead (not_ascii_ofNat (by omega) (by omega)) hlead
    (ofNat_between hleast hgreatest) rfl hmore rest
  rw [foldl_ofNat _ (by omega), foldl_ofNat _ (by omega), foldl_ofNat _ (by omega),
    List.foldl_nil, hsum] at hnext
  exact hnext

/-- The bytes of a character are read as the character. -/
theorem next_utf8EncodeChar {c : Char} {more : Bytes} (h : String.utf8EncodeChar c = x :: more)
    (rest : Bytes) : next x (more ++ rest) = (c, more.length) := by
  have hvalid : c.val.toNat < 0xd800 ∨ 0xdfff < c.val.toNat ∧ c.val.toNat < 0x110000 := c.valid
  have hc : Char.ofNat c.val.toNat = c := Char.ofNat_toNat c
  unfold String.utf8EncodeChar at h
  dsimp only at h
  split at h
  · obtain ⟨rfl, rfl⟩ := List.cons.inj h
    exact next_ofNat (Nat.lt_succ_of_le ‹_›) rest
  · rename_i hone
    split at h
    · rename_i htwo
      obtain ⟨rfl, rfl⟩ := List.cons.inj h
      have hnext := next_two (Nat.lt_of_not_le hone) htwo rest
      rwa [hc] at hnext
    · rename_i htwo
      split at h
      · rename_i hthree
        obtain ⟨rfl, rfl⟩ := List.cons.inj h
        have hnext := next_three (Nat.lt_of_not_le htwo) hthree (by omega) rest
        rwa [hc] at hnext
      · rename_i hthree
        obtain ⟨rfl, rfl⟩ := List.cons.inj h
        have hnext := next_four (Nat.lt_of_not_le hthree) (by omega) rest
        rwa [hc] at hnext

/-- **Valid UTF-8 is read as the text that it is.** -/
theorem chars_ofText (text : List Char) : chars (text.flatMap String.utf8EncodeChar) = text := by
  induction text with
  | nil => exact chars_nil
  | cons c text ih =>
    obtain ⟨x, more, hbytes⟩ := List.exists_cons_of_ne_nil (String.utf8EncodeChar_ne_nil (c := c))
    rw [List.flatMap_cons, hbytes, List.cons_append, chars_cons, next_utf8EncodeChar hbytes,
      List.drop_left, ih]

end Utf8

namespace Bytes

/-- The text of bytes is made of their characters. -/
theorem toTextLossy_eq (b : Bytes) : toTextLossy b = String.ofList (Utf8.chars b) := by
  unfold toTextLossy
  cases htext : toText? b with
  | none => rfl
  | some text =>
    obtain rfl := ofText_of_toText? htext
    rw [Option.getD_some, ← String.ofList_toList (s := text), ofText_ofList, Utf8.chars_ofText]

/-- A text of ASCII characters is read from its own bytes only. -/
theorem toTextLossy_eq_iff {text : String} (h : ∀ c ∈ text.toList, c.toNat < 0x80 ∧ c ≠ '\x00')
    {b : Bytes} : toTextLossy b = text ↔ b = ofText text := by
  rw [toTextLossy_eq, ← String.toList_inj, String.toList_ofList, Utf8.chars_eq_iff h,
    ← ofText_ofList, String.ofList_toList]

end Bytes

end Lockbox
