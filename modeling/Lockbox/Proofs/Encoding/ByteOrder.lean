import Lockbox.Proofs.Bytes

namespace Lockbox.Bytes

/-!
# The order of texts is that of their bytes

Texts are ordered by their characters.  UTF-8 keeps this order: what comes first among texts comes
first among their bytes, too.

* `Before` — bytes that come before others whatever follows.
* `before_utf8EncodeChar` — the bytes of a character.
* `ofText_lt_ofText` — the bytes of a text.
-/

/-- Bytes that come before others, whatever follows on either side. -/
def Before (b c : Bytes) : Prop := ∀ s t : Bytes, b ++ s < c ++ t

/-- The first byte decides, unless it is the same. -/
theorem before_cons {m n : Nat} {b c : Bytes} (hm : m < 256) (hn : n < 256)
    (h : m < n ∨ m = n ∧ Before b c) : Before (UInt8.ofNat m :: b) (UInt8.ofNat n :: c) := by
  intro s t
  rw [List.cons_append, List.cons_append, List.cons_lt_cons_iff]
  rcases h with hlt | ⟨rfl, hrest⟩
  · refine .inl ?_
    rw [UInt8.lt_iff_toNat_lt, UInt8.toNat_ofNat', UInt8.toNat_ofNat']
    omega
  · exact .inr ⟨rfl, hrest s t⟩

/-- The bytes of a character come before those of a later one: a longer code starts with a greater
    byte, and codes of one length are ordered like the numbers they stand for. -/
theorem before_utf8EncodeChar {c d : Char} (h : c < d) :
    Before (String.utf8EncodeChar c) (String.utf8EncodeChar d) := by
  have hval : c.val.toNat < d.val.toNat := h
  have hmax : d.val.toNat < 0x110000 := by
    rcases d.valid with hlow | hhigh
    · have : d.val.toNat < 0xd800 := hlow
      omega
    · exact hhigh.2
  unfold String.utf8EncodeChar
  generalize c.val.toNat = m at hval ⊢
  generalize d.val.toNat = n at hval hmax ⊢
  dsimp only
  by_cases hlength : (m ≤ 0x7f ↔ n ≤ 0x7f) ∧ (m ≤ 0x7ff ↔ n ≤ 0x7ff) ∧ (m ≤ 0xffff ↔ n ≤ 0xffff)
  · -- Codes of one length: some byte is smaller, and those before it are the same.
    obtain ⟨hone, htwo, hthree⟩ := hlength
    simp only [← hone, ← htwo, ← hthree]
    split
    · exact before_cons (by omega) (by omega) (.inl hval)
    · split
      · apply before_cons (by omega) (by omega)
        by_cases hfirst : m / 64 = n / 64
        · refine .inr ⟨by rw [hfirst], before_cons (by omega) (by omega) (.inl (by omega))⟩
        · exact .inl (by omega)
      · split
        · apply before_cons (by omega) (by omega)
          by_cases hfirst : m / 4096 = n / 4096
          · refine .inr ⟨by rw [hfirst], before_cons (by omega) (by omega) ?_⟩
            by_cases hsecond : m / 64 = n / 64
            · refine .inr ⟨by rw [hsecond], before_cons (by omega) (by omega) (.inl (by omega))⟩
            · exact .inl (by omega)
          · exact .inl (by omega)
        · apply before_cons (by omega) (by omega)
          by_cases hfirst : m / 262144 = n / 262144
          · refine .inr ⟨by rw [hfirst], before_cons (by omega) (by omega) ?_⟩
            by_cases hsecond : m / 4096 = n / 4096
            · refine .inr ⟨by rw [hsecond], before_cons (by omega) (by omega) ?_⟩
              by_cases hthird : m / 64 = n / 64
              · refine .inr ⟨by rw [hthird], before_cons (by omega) (by omega) (.inl (by omega))⟩
              · exact .inl (by omega)
            · exact .inl (by omega)
          · exact .inl (by omega)
  · -- The first byte of the longer code is greater.
    repeat' split
    all_goals first
      | omega
      | exact before_cons (by omega) (by omega) (.inl (by omega))

/-- The bytes of a text come first if the text does. -/
theorem ofText_lt_ofText {s t : String} (h : s < t) : ofText s < ofText t := by
  have hlists : ∀ l k : List Char, l < k →
      l.flatMap String.utf8EncodeChar < k.flatMap String.utf8EncodeChar := by
    intro l
    induction l with
    | nil =>
      intro k hlt
      cases k with
      | nil => exact absurd hlt (List.lt_irrefl [])
      | cons d k =>
        obtain ⟨b, rest, hb⟩ := List.exists_cons_of_ne_nil (String.utf8EncodeChar_ne_nil (c := d))
        rw [List.flatMap_nil, List.flatMap_cons, hb, List.cons_append]
        exact List.nil_lt_cons _ _
    | cons c l ih =>
      intro k hlt
      cases k with
      | nil => exact absurd hlt (List.not_lt_nil _)
      | cons d k =>
        rw [List.flatMap_cons, List.flatMap_cons]
        -- The first characters that differ decide, and their bytes do so whatever follows.
        rcases List.cons_lt_cons_iff.mp hlt with hchar | ⟨rfl, hrest⟩
        · exact before_utf8EncodeChar hchar _ _
        · exact List.append_left_lt (ih k hrest)
  have hlt := hlists s.toList t.toList h
  rwa [← ofText_ofList, ← ofText_ofList, String.ofList_toList, String.ofList_toList] at hlt

end Lockbox.Bytes
