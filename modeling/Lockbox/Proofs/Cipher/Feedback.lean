import Lockbox.Cipher.Cfb8
import Lockbox.Proofs.Steps
import Mathlib.Data.List.DropRight

namespace Lockbox.Cfb8

/-!
# Cipher feedback however a text is cut

A cryptor goes on where it stopped, so it does not matter how a text is divided into calls.  The
register carries this: in both directions it holds the last sixteen bytes of the initialisation
vector followed by the ciphertext, whoever has made the ciphertext.

* `each` — calls one after the other with one cryptor.
* `each_bytes`, `each_parts` — a text byte by byte, and in parts.
* `register_decrypt`, `register_encrypt` — the register after a text.
* `maskAfter`, `encrypt_concat` — how each byte is masked.
* `decrypts_however_cut` — a text that is cut twice.
-/

variable {α β : Type}

/-! ### Calls one after the other -/

/-- Calls one after the other with one cryptor, each from where the register was after the one
    before. -/
def each (call : Cfb8 → α → β × Cfb8) (c : Cfb8) (inputs : List α) : List β × Cfb8 :=
  (inputs.mapM fun input c => call c input : StateM Cfb8 (List β)) c

theorem each_cons (call : Cfb8 → α → β × Cfb8) (c : Cfb8) (input : α) (inputs : List α) :
    each call c (input :: inputs) = ((call c input).1 :: (each call (call c input).2 inputs).1,
      (each call (call c input).2 inputs).2) :=
  mapM_state_cons (fun input c => call c input) input inputs c

/-- Byte by byte, a text comes to what it comes to in one call. -/
theorem each_bytes (step : Cfb8 → UInt8 → UInt8 × Cfb8) (c : Cfb8) (text : Bytes) :
    each step c text = runOnto step [] c text := by
  induction text generalizing c with
  | nil => rfl
  | cons x text ih => rw [each_cons, runOnto_cons, ih]

/-- In parts, a text comes to what it comes to in one call. -/
theorem each_parts (step : Cfb8 → UInt8 → UInt8 × Cfb8) (c : Cfb8) (parts : List Bytes) :
    ((each (runOnto step []) c parts).1.flatten, (each (runOnto step []) c parts).2) =
      runOnto step [] c parts.flatten := by
  induction parts generalizing c with
  | nil => rfl
  | cons part parts ih =>
    rw [each_cons, List.flatten_cons, List.flatten_cons, runOnto_append, ← ih]

/-- Each part keeps its length. -/
theorem map_length_each (step : Cfb8 → UInt8 → UInt8 × Cfb8) (c : Cfb8) (parts : List Bytes) :
    (each (runOnto step []) c parts).1.map List.length = parts.map List.length := by
  induction parts generalizing c with
  | nil => rfl
  | cons part parts ih => rw [each_cons, List.map_cons, List.map_cons, ih, length_runOnto]

/-! ### The register -/

/-- A byte that is shifted in comes last, and the first one is lost. -/
theorem toList_shiftIn (c : Cfb8) (y : UInt8) :
    (c.shiftIn y).register.toList = c.register.toList.tail ++ [y] := by
  apply List.ext_getElem
  · simp
  · intro i hi _
    rw [Vector.getElem_toList, List.getElem_append]
    simp [shiftIn]

/-- What comes before the last bytes does not matter to them. -/
theorem rtake_cons_of_le {n : Nat} {x : UInt8} {l : Bytes} (h : n ≤ l.length) :
    (x :: l).rtake n = l.rtake n := by
  rw [List.rtake_eq_reverse_take_reverse, List.reverse_cons,
    List.take_append_of_le_length (by rwa [List.length_reverse]),
    ← List.rtake_eq_reverse_take_reverse]

/-- A byte that is shifted in comes after those that were fed back before. -/
theorem rtake_shiftIn (c : Cfb8) (y : UInt8) (cipher : Bytes) :
    ((c.shiftIn y).register.toList ++ cipher).rtake 16 =
      (c.register.toList ++ y :: cipher).rtake 16 := by
  rw [toList_shiftIn, List.append_assoc, List.singleton_append]
  -- The byte that is lost is the first of seventeen or more.
  cases hregister : c.register.toList with
  | nil => simp at hregister
  | cons first register =>
    have hlength : register.length = 15 := by
      have := congrArg List.length hregister
      simpa using this.symm
    rw [List.tail_cons, List.cons_append, rtake_cons_of_le]
    rw [List.length_append, List.length_cons, hlength]
    omega

/-- The register after decrypting: the last sixteen bytes of what was in it, followed by the
    ciphertext. -/
theorem register_decrypt (c : Cfb8) (cipher : Bytes) :
    (c.decrypt cipher).2.register.toList = (c.register.toList ++ cipher).rtake 16 := by
  unfold decrypt
  induction cipher generalizing c with
  | nil => simp [runOnto, List.rtake]
  | cons y cipher ih =>
    rw [runOnto_cons, ← rtake_shiftIn]
    exact ih (c.shiftIn y)

/-- The register after encrypting: the ciphertext is what comes out. -/
theorem register_encrypt (c : Cfb8) (text : Bytes) :
    (c.encrypt text).2.register.toList = (c.register.toList ++ (c.encrypt text).1).rtake 16 := by
  rw [← register_decrypt, decrypt_encrypt]

/-- The round keys stay. -/
theorem schedule_decrypt (c : Cfb8) (cipher : Bytes) :
    (c.decrypt cipher).2.schedule = c.schedule := by
  unfold decrypt
  induction cipher generalizing c with
  | nil => rfl
  | cons y cipher ih =>
    rw [runOnto_cons]
    dsimp only [decryptByte]
    rw [ih, shiftIn]

/-! ### The mask -/

/-- The byte that masks the byte after a ciphertext, which the last sixteen bytes of the
    initialisation vector followed by the ciphertext tell. -/
def maskAfter (key iv : Vector UInt8 16) (cipher : Bytes) : UInt8 :=
  (ofKey key (Aes.Block.ofBytes ((iv.toList ++ cipher).rtake 16))).maskByte

theorem ofBytes_toList (v : Aes.Block) : Aes.Block.ofBytes v.toList = v := by
  simp [Aes.Block.ofBytes]

/-- What masks the next byte is told by the ciphertext so far. -/
theorem maskByte_decrypt (key iv : Vector UInt8 16) (cipher : Bytes) :
    ((ofKey key iv).decrypt cipher).2.maskByte = maskAfter key iv cipher := by
  have hregister : Aes.Block.ofBytes ((iv.toList ++ cipher).rtake 16) =
      ((ofKey key iv).decrypt cipher).2.register := by
    rw [← ofBytes_toList ((ofKey key iv).decrypt cipher).2.register, register_decrypt]
    rfl
  rw [maskByte, maskAfter, hregister, schedule_decrypt]
  rfl

/-- One byte more is one masked byte more. -/
theorem encrypt_concat (key iv : Vector UInt8 16) (text : Bytes) (x : UInt8) :
    ((ofKey key iv).encrypt (text ++ [x])).1 = ((ofKey key iv).encrypt text).1 ++
      [x ^^^ maskAfter key iv ((ofKey key iv).encrypt text).1] := by
  rw [← maskByte_decrypt, decrypt_encrypt]
  exact congrArg Prod.fst (runOnto_append encryptByte (ofKey key iv) text [x])

/-! ### Cut twice -/

/-- The first bytes of a ciphertext are the ciphertext of the first bytes. -/
theorem take_encrypt (c : Cfb8) (text : Bytes) (n : Nat) :
    (c.encrypt text).1.take n = (c.encrypt (text.take n)).1 := by
  by_cases hshort : text.length ≤ n
  · rw [List.take_of_length_le hshort, List.take_of_length_le (by rwa [length_encrypt])]
  · have happend : (c.encrypt text).1 = (c.encrypt (text.take n)).1 ++
        ((c.encrypt (text.take n)).2.encrypt (text.drop n)).1 := by
      conv => lhs; rw [← List.take_append_drop n text]
      exact congrArg Prod.fst (runOnto_append encryptByte c _ _)
    rw [happend, List.take_left']
    rw [length_encrypt, List.length_take]
    omega

theorem encrypt_injective (c : Cfb8) : Function.Injective fun text => (c.encrypt text).1 := by
  intro text other h
  have hread := decrypt_encrypt c text
  rw [show (c.encrypt text).1 = (c.encrypt other).1 from h, decrypt_encrypt] at hread
  exact (Prod.mk.inj hread).1.symm

/-- **However the data is cut, decrypting undoes encrypting.**  One cryptor encrypts the parts of a
    text, call by call, and another one, from the same key and initialisation vector, decrypts any
    other parts of the ciphertext.  Both come to what they come to byte by byte, both end with the
    last bytes of the ciphertext in the register, and the text is read.  The ciphertext is as long
    as the text; its first bytes depend on those of the text alone; no two texts have the same one;
    and each of its bytes is masked by what the ciphertext before it says. -/
theorem decrypts_however_cut (key iv : Vector UInt8 16) (text : Bytes) :
    let start := ofKey key iv
    let cipher := (start.encrypt text).1
    (∀ parts : List Bytes, parts.flatten = text →
      let sent := each encrypt start parts
      sent.1.flatten = cipher ∧ sent.1.map List.length = parts.map List.length ∧
      each encryptByte start text = (cipher, sent.2) ∧
      ∀ pieces : List Bytes, pieces.flatten = sent.1.flatten →
        let read := each decrypt start pieces
        read.1.flatten = text ∧ read.1.map List.length = pieces.map List.length ∧
        each decryptByte start cipher = (text, read.2) ∧
        read.2 = sent.2 ∧ sent.2.register.toList = (iv.toList ++ cipher).rtake 16) ∧
    cipher.length = text.length ∧
    (∀ (other : Bytes) (n : Nat), other.take n = text.take n →
      (start.encrypt other).1.take n = cipher.take n) ∧
    (Function.Injective fun text => (start.encrypt text).1) ∧
    ∀ (before : Bytes) (x : UInt8), (start.encrypt (before ++ [x])).1 =
      (start.encrypt before).1 ++ [x ^^^ maskAfter key iv (start.encrypt before).1] := by
  intro start cipher
  refine ⟨?_, length_encrypt start text, fun other n h => ?_, encrypt_injective start,
    encrypt_concat key iv⟩
  · rintro parts rfl
    obtain ⟨hcipher, hsent⟩ := Prod.mk.inj (each_parts encryptByte start parts)
    refine ⟨hcipher, map_length_each encryptByte start parts, ?_, fun pieces hpieces => ?_⟩
    · rw [each_bytes]
      exact Prod.ext rfl hsent.symm
    -- The pieces are decrypted as the ciphertext is in one call.
    have hone : pieces.flatten = cipher := hpieces.trans hcipher
    have hparts := each_parts decryptByte start pieces
    rw [hone] at hparts
    obtain ⟨htext, hread⟩ := Prod.mk.inj (hparts.trans (decrypt_encrypt start parts.flatten))
    refine ⟨htext, map_length_each decryptByte start pieces, ?_, hread.trans hsent.symm, ?_⟩
    · rw [each_bytes, ← hparts]
      exact Prod.ext htext rfl
    · show (each encrypt start parts).2.register.toList = _
      rw [show (each encrypt start parts).2 = (start.encrypt parts.flatten).2 from hsent,
        register_encrypt]
      rfl
  · rw [take_encrypt, h, ← take_encrypt]

/-- Three bytes are encrypted in two calls, and decrypted in two others. -/
theorem three_bytes_cut_twice : ∃ start sent read,
    start = ofKey (Vector.replicate 16 7) (Vector.replicate 16 0) ∧
    sent = each encrypt start [[1], [2, 3]] ∧
    read = each decrypt start [sent.1.flatten.take 2, sent.1.flatten.drop 2] ∧
    read.1.flatten = [1, 2, 3] ∧ read.2 = sent.2 := by
  have hpieces : ∀ cipher : Bytes,
      ([cipher.take 2, cipher.drop 2] : List Bytes).flatten = cipher := by simp
  obtain ⟨hcut, -⟩ :=
    decrypts_however_cut (Vector.replicate 16 7) (Vector.replicate 16 0) [1, 2, 3]
  obtain ⟨-, -, -, hread⟩ := hcut [[1], [2, 3]] rfl
  obtain ⟨htext, -, -, hsame, -⟩ := hread _ (hpieces _)
  exact ⟨_, _, _, rfl, rfl, rfl, htext, hsame⟩

end Lockbox.Cfb8
