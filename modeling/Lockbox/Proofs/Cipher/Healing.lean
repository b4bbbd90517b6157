import Lockbox.Proofs.Cipher.Feedback

namespace Lockbox.Cfb8

/-!
# Damaged ciphertexts

A damaged byte of a ciphertext spoils its own byte of the text and those that are masked while it
is in the register.  Sixteen bytes later it has been shifted out, and what follows is read as if
nothing had happened.  The same goes for a register that is wrong from the start.

* `Agree` — cryptors with the same last bytes in the register.
* `Agree.shiftIn`, `Agree.drop_decrypt` — one more byte agrees with each that is shifted in.
* `OnlyAt`, `OnlyAt.exists_split` — byte strings that differ in one place.
* `OnlyAt.register` — where in the register a damaged byte is.
* `damage_heals` — which bytes of the text are spoiled.
-/

/-! ### Calls taken apart -/

/-- The first byte is decrypted first. -/
theorem decrypt_cons (c : Cfb8) (y : UInt8) (cipher : Bytes) :
    (c.decrypt (y :: cipher)).1 = (y ^^^ c.maskByte) :: ((c.shiftIn y).decrypt cipher).1 :=
  congrArg Prod.fst (runOnto_cons decryptByte c y cipher)

/-- What comes later is decrypted from where the register then is. -/
theorem decrypt_append (c : Cfb8) (cipher more : Bytes) :
    (c.decrypt (cipher ++ more)).1 =
      (c.decrypt cipher).1 ++ ((c.decrypt cipher).2.decrypt more).1 :=
  congrArg Prod.fst (runOnto_append decryptByte c cipher more)

@[simp] theorem length_decrypt (c : Cfb8) (cipher : Bytes) :
    (c.decrypt cipher).1.length = cipher.length :=
  length_runOnto decryptByte c cipher

/-! ### Registers that come to agree -/

/-- Do two cryptors have the same round keys, and the same last `n` bytes in the register? -/
structure Agree (n : Nat) (c d : Cfb8) : Prop where
  /-- The round keys are the same. -/
  schedule : c.schedule = d.schedule
  /-- The last `n` bytes are the same. -/
  register : ∀ i (h : i < 16), 16 ≤ i + n → c.register[i] = d.register[i]

/-- Shifting bytes in leaves the round keys alone. -/
theorem schedule_shiftIn (c : Cfb8) (x y : UInt8) :
    (c.shiftIn x).schedule = (c.shiftIn y).schedule := rfl

namespace Agree

variable {n : Nat} {c d : Cfb8}

/-- With the same round keys, cryptors agree on no bytes at least. -/
theorem zero (h : c.schedule = d.schedule) : Agree 0 c d :=
  ⟨h, fun _ hi hlast => absurd hi (Nat.not_lt.mpr hlast)⟩

/-- Cryptors that agree on the whole register are the same. -/
theorem eq (h : Agree n c d) (hn : 16 ≤ n) : c = d := by
  obtain ⟨hschedule, hregister⟩ := h
  cases c
  cases d
  congr
  apply Vector.ext
  intro i hi
  exact hregister i hi (by omega)

/-- A byte that is shifted into both is one more to agree on. -/
theorem shiftIn (h : Agree n c d) (y : UInt8) : Agree (n + 1) (c.shiftIn y) (d.shiftIn y) := by
  refine ⟨h.schedule, fun i hi hlast => ?_⟩
  simp only [Cfb8.shiftIn, Vector.getElem_ofFn]
  split
  · exact h.register (i + 1) (by omega) (by omega)
  · rfl

/-- What is decrypted is the same as soon as sixteen bytes agree. -/
theorem drop_decrypt (h : Agree n c d) (cipher : Bytes) :
    (c.decrypt cipher).1.drop (16 - n) = (d.decrypt cipher).1.drop (16 - n) := by
  -- On the ciphertext: each byte is shifted into both registers.
  induction cipher generalizing n c d with
  | nil => rfl
  | cons y cipher ih =>
    by_cases hn : 16 ≤ n
    · rw [h.eq hn]
    · obtain ⟨left, hleft⟩ : ∃ left, 16 - n = left + 1 := ⟨15 - n, by omega⟩
      have hnext : 16 - (n + 1) = left := by omega
      have hrest := ih (h.shiftIn y)
      rw [hnext] at hrest
      rw [decrypt_cons, decrypt_cons, hleft, List.drop_succ_cons, List.drop_succ_cons, hrest]

end Agree

/-- **After sixteen bytes it does not matter what was in the register.** -/
theorem drop_decrypt {c d : Cfb8} (h : c.schedule = d.schedule) (cipher : Bytes) :
    (c.decrypt cipher).1.drop 16 = (d.decrypt cipher).1.drop 16 :=
  (Agree.zero h).drop_decrypt cipher

/-- Byte by byte, this holds from the seventeenth byte on. -/
theorem getElem?_decrypt_eq {c d : Cfb8} (h : c.schedule = d.schedule) (cipher : Bytes) {j : Nat}
    (hj : 16 ≤ j) : (c.decrypt cipher).1[j]? = (d.decrypt cipher).1[j]? := by
  obtain ⟨k, rfl⟩ : ∃ k, j = 16 + k := ⟨j - 16, by omega⟩
  rw [← List.getElem?_drop, ← List.getElem?_drop, drop_decrypt h]

/-! ### Damage in one place -/

/-- Are two byte strings of one length, and different in one place only? -/
def OnlyAt (i : Nat) (cipher other : Bytes) : Prop :=
  cipher.length = other.length ∧ ∀ j, cipher[j]? ≠ other[j]? ↔ j = i

/-- What comes before and after the place is the same. -/
theorem OnlyAt.exists_split {i : Nat} {cipher other : Bytes} (h : OnlyAt i cipher other) :
    ∃ before x y after, cipher = before ++ x :: after ∧ other = before ++ y :: after ∧
      before.length = i ∧ x ≠ y := by
  obtain ⟨hlength, hdiffer⟩ := h
  have hsame : ∀ j, j ≠ i → cipher[j]? = other[j]? := fun j hj =>
    not_not.mp fun hne => hj ((hdiffer j).mp hne)
  have hplace : cipher[i]? ≠ other[i]? := (hdiffer i).mpr rfl
  have hi : i < cipher.length := by
    by_contra hlong
    have hend : other.length ≤ i := by omega
    exact hplace (by rw [List.getElem?_eq_none (by omega), List.getElem?_eq_none hend])
  have hother : i < other.length := hlength ▸ hi
  have hbefore : other.take i = cipher.take i := by
    apply List.ext_getElem?
    intro j
    rw [List.getElem?_take, List.getElem?_take]
    split
    · exact (hsame j (by omega)).symm
    · rfl
  have hafter : other.drop (i + 1) = cipher.drop (i + 1) := by
    apply List.ext_getElem?
    intro j
    rw [List.getElem?_drop, List.getElem?_drop]
    exact (hsame _ (by omega)).symm
  refine ⟨cipher.take i, cipher[i], other[i], cipher.drop (i + 1), ?_, ?_, ?_, ?_⟩
  · rw [← List.drop_eq_getElem_cons hi, List.take_append_drop]
  · rw [← hbefore, ← hafter, ← List.drop_eq_getElem_cons hother, List.take_append_drop]
  · exact List.length_take_of_le (Nat.le_of_lt hi)
  · intro heq
    exact hplace (by rw [List.getElem?_eq_getElem hi, List.getElem?_eq_getElem hother, heq])

/-! ### What comes of it -/

section

variable (c : Cfb8) (before : Bytes)

/-- What comes before a place does not depend on what comes from there on. -/
theorem getElem?_decrypt_before (more : Bytes) {j : Nat} (hj : j < before.length) :
    (c.decrypt (before ++ more)).1[j]? = (c.decrypt before).1[j]? := by
  rw [decrypt_append, List.getElem?_append_left (by rwa [length_decrypt])]

/-- What comes in a place is masked by what comes before. -/
theorem getElem?_decrypt_here (y : UInt8) (after : Bytes) :
    (c.decrypt (before ++ y :: after)).1[before.length]? =
      some (y ^^^ (c.decrypt before).2.maskByte) := by
  rw [decrypt_append, decrypt_cons, List.getElem?_append_right (by rw [length_decrypt]),
    length_decrypt, Nat.sub_self, List.getElem?_cons_zero]

/-- What comes after a place is decrypted once the byte there has been shifted in. -/
theorem getElem?_decrypt_after (y : UInt8) (after : Bytes) (k : Nat) :
    (c.decrypt (before ++ y :: after)).1[before.length + (k + 1)]? =
      (((c.decrypt before).2.shiftIn y).decrypt after).1[k]? := by
  rw [decrypt_append, decrypt_cons, List.getElem?_append_right (by rw [length_decrypt]; omega),
    length_decrypt, Nat.add_sub_cancel_left, List.getElem?_cons_succ]

end

/-! ### Where the damage is -/

/-- What is in the register are the last bytes of what was in it and of the ciphertext. -/
theorem getElem?_register_decrypt (c : Cfb8) (cipher : Bytes) (p : Nat) :
    (c.decrypt cipher).2.register.toList[p]? =
      (c.register.toList ++ cipher)[cipher.length + p]? := by
  rw [register_decrypt, List.rtake, List.getElem?_drop, List.length_append, Vector.length_toList,
    Nat.add_sub_cancel_left]

/-- While the damaged byte is in the register, the rest of the register is sound.  With every byte
    that is shifted in, the damage is one place further to the front. -/
theorem OnlyAt.register {i k : Nat} {cipher other : Bytes} (h : OnlyAt i cipher other) (hk : k < 16)
    (hlong : i + k < cipher.length) (c : Cfb8) :
    OnlyAt (15 - k) (c.decrypt (cipher.take (i + 1 + k))).2.register.toList
      (c.decrypt (other.take (i + 1 + k))).2.register.toList := by
  obtain ⟨hlength, hdiffer⟩ := h
  refine ⟨by rw [Vector.length_toList, Vector.length_toList], fun p => ?_⟩
  rw [getElem?_register_decrypt, getElem?_register_decrypt, List.length_take_of_le (by omega),
    List.length_take_of_le (by omega)]
  by_cases hold : i + 1 + k + p < 16
  · -- This byte has been in the register from the start.
    rw [List.getElem?_append_left (by simpa using hold),
      List.getElem?_append_left (by simpa using hold)]
    exact ⟨fun hne => absurd rfl hne, fun hp => by omega⟩
  · rw [List.getElem?_append_right (by simpa using hold),
      List.getElem?_append_right (by simpa using hold), Vector.length_toList, List.getElem?_take,
      List.getElem?_take]
    by_cases hp : p < 16
    · rw [if_pos (by omega), if_pos (by omega), hdiffer]
      omega
    · rw [if_neg (by omega), if_neg (by omega)]
      exact ⟨fun hne => absurd rfl hne, fun hp => by omega⟩

/-- **Damage is local and heals.**  Of two ciphertexts that differ in one place only, the texts
    are the same before that place and from the seventeenth byte after it on.  In the place itself
    both are masked alike, so the texts differ there, in the bits in which the ciphertexts do.
    After the place the registers differ in one byte, the last one at first and the first one
    sixteen bytes later.  And with any two registers to start from, the texts are the same from the
    seventeenth byte on. -/
theorem damage_heals (key : Vector UInt8 16) :
    (∀ (iv : Vector UInt8 16) (i : Nat) (cipher other : Bytes), OnlyAt i cipher other →
      let start := ofKey key iv
      let read := (start.decrypt cipher).1
      let spoiled := (start.decrypt other).1
      (∀ j, j < i ∨ i + 16 < j → read[j]? = spoiled[j]?) ∧ read[i]? ≠ spoiled[i]? ∧
      (∃ mask : UInt8, read[i]? = cipher[i]?.map (· ^^^ mask) ∧
        spoiled[i]? = other[i]?.map (· ^^^ mask)) ∧
      ∀ k < 16, i + k < cipher.length →
        OnlyAt (15 - k) (start.decrypt (cipher.take (i + 1 + k))).2.register.toList
          (start.decrypt (other.take (i + 1 + k))).2.register.toList) ∧
    ∀ (iv other : Vector UInt8 16) (cipher : Bytes) (j : Nat), 16 ≤ j →
      ((ofKey key iv).decrypt cipher).1[j]? = ((ofKey key other).decrypt cipher).1[j]? := by
  have hschedule : ∀ iv other, (ofKey key iv).schedule = (ofKey key other).schedule :=
    fun _ _ => rfl
  refine ⟨fun iv i cipher other h => ?_,
    fun iv other cipher j hj => getElem?_decrypt_eq (hschedule iv other) cipher hj⟩
  intro start read spoiled
  have hregister : ∀ k < 16, i + k < cipher.length → OnlyAt (15 - k) _ _ :=
    fun k hk hlong => h.register hk hlong start
  obtain ⟨before, x, y, after, rfl, rfl, rfl, hne⟩ := h.exists_split
  have hread : read[before.length]? = _ := getElem?_decrypt_here start before x after
  have hspoiled : spoiled[before.length]? = _ := getElem?_decrypt_here start before y after
  refine ⟨?_, ?_, ⟨(start.decrypt before).2.maskByte, ?_, ?_⟩, hregister⟩
  · rintro j (hj | hj)
    · exact (getElem?_decrypt_before start before (x :: after) hj).trans
        (getElem?_decrypt_before start before (y :: after) hj).symm
    · -- The damaged byte is in one register and the sound one in the other, and both go out.
      obtain ⟨k, rfl⟩ : ∃ k, j = before.length + (k + 1) := ⟨j - before.length - 1, by omega⟩
      have hk : 16 ≤ k := by omega
      rw [getElem?_decrypt_after, getElem?_decrypt_after]
      exact getElem?_decrypt_eq (schedule_shiftIn _ x y) after hk
  · rw [hread, hspoiled]
    intro heq
    exact hne ((UInt8.xor_left_inj _).mp (Option.some.inj heq))
  · rw [hread]
    simp
  · rw [hspoiled]
    simp

/-- A ciphertext of eighteen bytes whose first byte is damaged.  The last byte is read as it should
    be; before it is decrypted, the damage has gone through the whole register. -/
theorem first_byte_damaged :
    let start := ofKey (Vector.replicate 16 7) (Vector.replicate 16 0)
    let begun := ofKey (Vector.replicate 16 7) (Vector.replicate 16 1)
    let cipher : Bytes := List.replicate 18 0
    let other := cipher.set 0 1
    OnlyAt 0 cipher other ∧ (start.decrypt cipher).1[0]? ≠ (start.decrypt other).1[0]? ∧
      (start.decrypt cipher).1[17]? = (start.decrypt other).1[17]? ∧
      OnlyAt 0 (start.decrypt (cipher.take 16)).2.register.toList
        (start.decrypt (other.take 16)).2.register.toList ∧
      (start.decrypt cipher).1[16]? = (begun.decrypt cipher).1[16]? := by
  intro start begun cipher other
  have honly : OnlyAt 0 cipher other := by
    refine ⟨rfl, fun j => ?_⟩
    rw [List.getElem?_set]
    by_cases hj : 0 = j
    · subst hj
      decide
    · rw [if_neg hj]
      exact ⟨fun hne => absurd rfl hne, fun heq => absurd heq.symm hj⟩
  obtain ⟨hdamaged, hstarts⟩ := damage_heals (Vector.replicate 16 7)
  obtain ⟨hsame, hhere, -, hregister⟩ := hdamaged (Vector.replicate 16 0) 0 cipher other honly
  exact ⟨honly, hhere, hsame 17 (.inr (by decide)), hregister 15 (by decide) (by decide),
    hstarts _ _ cipher 16 (Nat.le_refl 16)⟩

end Lockbox.Cfb8
