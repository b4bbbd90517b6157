import Lockbox.Proofs.Bytes
import Lockbox.Proofs.Json.Parsing

namespace Lockbox.Json

/-!
# Nothing is shorter than what is printed

A text that is read is never shorter than the same value printed without blanks, and a quoted text
is never shorter than the text it stands for when that is written again.

* `Token.read?_size` — the tokens of a text are readable, and no longer than it.
* `parse?_size` — the same for a value.
* `membersSize_lt` — an object is longer than its members together.
* `TextUnit.size_ofText_le` — the same for a quoted text and its meaning.
-/

/-- The number of bytes that units take between quotes. -/
def TextUnit.size (units : List TextUnit) : Nat := (units.flatMap spell).length

/-- The number of bytes that tokens take without blanks between them. -/
def Token.size (tokens : List Token) : Nat := (tokens.flatMap spell).length

namespace TextUnit

@[simp] theorem size_nil : size [] = 0 := rfl

@[simp] theorem size_cons (u : TextUnit) (units : List TextUnit) :
    size (u :: units) = u.spell.length + size units := by
  simp [size]

@[simp] theorem size_append (units more : List TextUnit) :
    size (units ++ more) = size units + size more := by
  simp [size]

@[simp] theorem size_reverse (units : List TextUnit) : size units.reverse = size units := by
  induction units with
  | nil => rfl
  | cons u units ih => simp [ih]; omega

/-- Only quotes, backslashes and control characters have letters. -/
theorem toEscape?_eq_none {value : UInt8} (hquote : value ≠ '"'.toUInt8)
    (hslash : value ≠ '\\'.toUInt8) (hlow : ¬value < 0x20) : toEscape? value = none := by
  unfold toEscape?
  rw [if_neg (by simp [hquote, hslash])]
  repeat'
    split
    · subst value
      exact absurd (by decide) hlow
  rfl

/-- A byte that has no letter stands for itself. -/
theorem length_spell_byte {value : UInt8} (h : toEscape? value = none) :
    (byte value).spell.length = 1 := by
  simp [spell, h]

/-- A byte that a letter stands for can be written with a letter again, if it has to. -/
theorem readable_of_ofEscape? {letter value : UInt8} (h : ofEscape? letter = some value) :
    (byte value).Readable ∧ (byte value).spell.length ≤ 2 := by
  unfold ofEscape? at h
  split at h
  · rename_i hletter
    obtain rfl := Option.some.inj h
    rcases hletter with rfl | rfl | rfl <;> exact ⟨by unfold Readable; decide, by decide⟩
  repeat'
    split at h
    · obtain rfl := Option.some.inj h
      exact ⟨by unfold Readable; decide, by decide⟩
  simp at h

end TextUnit

namespace Token

@[simp] theorem size_nil : size [] = 0 := rfl

@[simp] theorem size_cons (t : Token) (tokens : List Token) :
    size (t :: tokens) = t.spell.length + size tokens := by
  simp [size]

@[simp] theorem size_append (tokens more : List Token) :
    size (tokens ++ more) = size tokens + size more := by
  simp [size]

@[simp] theorem size_reverse (tokens : List Token) : size tokens.reverse = size tokens := by
  induction tokens with
  | nil => rfl
  | cons t tokens ih => simp [ih]; omega

@[simp] theorem length_spell_text (units : List TextUnit) :
    (text units).spell.length = TextUnit.size units + 2 := by
  simp [spell, TextUnit.size]

/-- A punctuation mark that is read is spelled as the byte that it is read from. -/
theorem length_spell_of_ofPunctuation? {b : UInt8} {t : Token} (h : ofPunctuation? b = some t) :
    t.Readable ∧ t.spell.length = 1 := by
  unfold ofPunctuation? at h
  repeat'
    split at h
    · obtain rfl := Option.some.inj h
      exact ⟨trivial, rfl⟩
  simp at h

/-- A word that is read is spelled with the letters that it is read from. -/
theorem spell_of_ofWord? {letters : Bytes} {t : Token} (h : ofWord? letters = some t) :
    t.Readable ∧ t.spell = letters := by
  unfold ofWord? at h
  repeat'
    split at h
    · rename_i hletters
      obtain rfl := Option.some.inj h
      exact ⟨trivial, hletters.symm⟩
  simp at h

end Token

/-- A literal goes on with every byte that its phase has a place for. -/
theorem NumberPhase.ofLiteral?_snoc {literal : Bytes} {phase next : NumberPhase} {b : UInt8}
    (h : ofLiteral? literal = some phase) (hb : phase.next? b = some next) :
    ofLiteral? (literal ++ [b]) = some next := by
  cases literal with
  | nil => simp [ofLiteral?] at h
  | cons first rest =>
    simp only [ofLiteral?, Option.bind_eq_bind, Option.bind_eq_some_iff] at h
    obtain ⟨start, hstart, hrest⟩ := h
    simp [ofLiteral?, hstart, List.foldlM_append, hrest, hb]

/-! ### The reader -/

namespace Lexer

/-- What the reader holds of the token that it is in the middle of. -/
def Mode.size : Mode → Nat
  | .between => 0
  | .word letters => letters.length
  | .number _ literal => literal.length
  | .text units => TextUnit.size units + 1
  | .escape units => TextUnit.size units + 2
  | .digits units left _ => TextUnit.size units + 3 + (4 - left)

/-- What the reader is in the middle of can become a readable token. -/
def Mode.Sound : Mode → Prop
  | .between | .word _ => True
  | .number phase literal => NumberPhase.ofLiteral? literal.reverse = some phase
  | .text units | .escape units | .digits units _ _ => ∀ u ∈ units, u.Readable

/-- The reader has kept no more than `size` bytes, all of them in readable tokens. -/
structure Within (lexer : Lexer) (size : Nat) : Prop where
  /-- The tokens so far are readable. -/
  readable : ∀ t ∈ lexer.tokens, t.Readable
  /-- So is what has been begun. -/
  sound : lexer.mode.Sound
  /-- All together is not too long. -/
  size_le : Token.size lexer.tokens + lexer.mode.size ≤ size

/-- Reading on within a token. -/
theorem Within.stay {lexer : Lexer} {size : Nat} {mode : Mode} (h : lexer.Within size)
    (hsound : mode.Sound) (hsize : mode.size ≤ lexer.mode.size + 1) :
    Within { lexer with mode } (size + 1) where
  readable := h.readable
  sound := hsound
  size_le := by
    have := h.size_le
    simp only
    omega

/-- Starting a new token. -/
theorem within_enter {tokens : List Token} {size : Nat} {b : UInt8} {next : Lexer}
    (hread : ∀ t ∈ tokens, t.Readable) (hsize : Token.size tokens ≤ size)
    (h : enter tokens b = some next) : next.Within (size + 1) := by
  -- A blank, a quote, a letter, a punctuation mark, or the first byte of a number.
  unfold enter at h
  split at h
  · obtain rfl := Option.some.inj h
    exact ⟨hread, trivial, by simp only [Mode.size]; omega⟩
  split at h
  · obtain rfl := Option.some.inj h
    exact ⟨hread, by simp [Mode.Sound], by simp [Mode.size]; omega⟩
  split at h
  · obtain rfl := Option.some.inj h
    exact ⟨hread, trivial, by simp [Mode.size]; omega⟩
  split at h
  · rename_i t hpunctuation
    obtain rfl := Option.some.inj h
    obtain ⟨ht, hlength⟩ := Token.length_spell_of_ofPunctuation? hpunctuation
    refine ⟨?_, trivial, by simp [Mode.size, hlength]; omega⟩
    intro u hu
    rcases List.mem_cons.mp hu with rfl | hu
    · exact ht
    · exact hread u hu
  · rename_i phase hphase
    obtain rfl := Option.some.inj h
    refine ⟨hread, ?_, by simp [Mode.size]; omega⟩
    simp [Mode.Sound, NumberPhase.ofLiteral?, hphase]
  · simp at h

/-- Ending a token. -/
theorem within_settle {lexer : Lexer} {size : Nat} {tokens : List Token} (hl : lexer.Within size)
    (h : lexer.settle? = some tokens) :
    (∀ t ∈ tokens, t.Readable) ∧ Token.size tokens ≤ size := by
  obtain ⟨before, mode⟩ := lexer
  obtain ⟨hread, hsound, hsize⟩ := hl
  simp only at hread hsound hsize
  -- Words and numbers may end here; what has been opened by a quote may not.
  cases mode with
  | between =>
    obtain rfl := Option.some.inj h
    exact ⟨hread, by simpa [Mode.size] using hsize⟩
  | word letters =>
    simp only [settle?, Option.bind_eq_bind, Option.bind_eq_some_iff] at h
    obtain ⟨t, hword, htokens⟩ := h
    obtain rfl := Option.some.inj htokens
    obtain ⟨ht, hspell⟩ := Token.spell_of_ofWord? hword
    refine ⟨?_, by simp [Mode.size, hspell] at hsize ⊢; omega⟩
    intro u hu
    rcases List.mem_cons.mp hu with rfl | hu
    · exact ht
    · exact hread u hu
  | number phase literal =>
    simp only [settle?] at h
    split at h
    · rename_i hcomplete
      obtain rfl := Option.some.inj h
      refine ⟨?_, by simp [Mode.size, Token.spell] at hsize ⊢; omega⟩
      intro u hu
      rcases List.mem_cons.mp hu with rfl | hu
      · exact ⟨phase, hsound, hcomplete⟩
      · exact hread u hu
    · simp at h
  | text units => simp [settle?] at h
  | escape units => simp [settle?] at h
  | digits units left value => simp [settle?] at h

/-- Ending a token and starting the next. -/
theorem within_leave {lexer : Lexer} {size : Nat} {b : UInt8} {next : Lexer}
    (hl : lexer.Within size) (h : lexer.leave b = some next) : next.Within (size + 1) := by
  simp only [Lexer.leave, Option.bind_eq_bind, Option.bind_eq_some_iff] at h
  obtain ⟨tokens, hsettle, henter⟩ := h
  obtain ⟨hread, hsize⟩ := within_settle hl hsettle
  exact within_enter hread hsize henter

/-- One more readable unit in a quoted text. -/
theorem Within.unit {lexer : Lexer} {size : Nat} {units : List TextUnit} {u : TextUnit}
    (h : lexer.Within size) (hunits : ∀ u ∈ units, u.Readable) (hu : u.Readable)
    (hsize : u.spell.length + TextUnit.size units ≤ lexer.mode.size) :
    Within { lexer with mode := .text (u :: units) } (size + 1) := by
  apply h.stay
  · intro other hother
    rcases List.mem_cons.mp hother with rfl | hmem
    · exact hu
    · exact hunits other hmem
  · rw [Mode.size, TextUnit.size_cons]
    omega

/-- The closing quote turns the units into a token. -/
theorem Within.close {lexer : Lexer} {size : Nat} {units : List TextUnit} (h : lexer.Within size)
    (hmode : lexer.mode = .text units) :
    Within ⟨.text units.reverse :: lexer.tokens, .between⟩ (size + 1) := by
  obtain ⟨hread, hsound, hsize⟩ := h
  rw [hmode] at hsound hsize
  refine ⟨?_, trivial, by simp [Mode.size] at hsize ⊢; omega⟩
  intro t ht
  rcases List.mem_cons.mp ht with rfl | ht
  · intro u hu
    exact hsound u (List.mem_reverse.mp hu)
  · exact hread t ht

/-- Reading on in a quoted text: the quote that ends it, a backslash, or a byte of it. -/
theorem within_text {lexer next : Lexer} {size : Nat} {b : UInt8} {units : List TextUnit}
    (hl : lexer.Within size) (hmode : lexer.mode = .text units) (h : lexer.step b = some next) :
    next.Within (size + 1) := by
  have hsound := hl.sound
  unfold step at h
  rw [hmode] at hsound h
  dsimp only at h
  split at h
  · obtain rfl := Option.some.inj h
    exact hl.close hmode
  split at h
  · obtain rfl := Option.some.inj h
    exact hl.stay hsound (by simp [hmode, Mode.size])
  split at h
  · simp at h
  · rename_i hquote hslash hlow
    obtain rfl := Option.some.inj h
    -- A byte that has to be escaped does not get here, so this one takes a single byte.
    have hletter := TextUnit.toEscape?_eq_none hquote hslash hlow
    refine hl.unit hsound (fun hcontrol => absurd hcontrol hlow) ?_
    rw [TextUnit.length_spell_byte hletter, hmode, Mode.size]
    omega

/-- Reading on after a backslash: digits follow, or a letter. -/
theorem within_escape {lexer next : Lexer} {size : Nat} {b : UInt8} {units : List TextUnit}
    (hl : lexer.Within size) (hmode : lexer.mode = .escape units) (h : lexer.step b = some next) :
    next.Within (size + 1) := by
  have hsound := hl.sound
  unfold step at h
  rw [hmode] at hsound h
  dsimp only at h
  split at h
  · obtain rfl := Option.some.inj h
    exact hl.stay hsound (by simp [hmode, Mode.size])
  · simp only [Option.bind_eq_bind, Option.bind_eq_some_iff] at h
    obtain ⟨value, hvalue, hnext⟩ := h
    obtain rfl := Option.some.inj hnext
    -- What two bytes have been read for takes no more than two.
    obtain ⟨hreadable, hlength⟩ := TextUnit.readable_of_ofEscape? hvalue
    refine hl.unit hsound hreadable ?_
    rw [hmode, Mode.size]
    omega

/-- Reading on among the digits of a UTF-16 unit. -/
theorem within_digits {lexer next : Lexer} {size left value : Nat} {b : UInt8}
    {units : List TextUnit} (hl : lexer.Within size) (hmode : lexer.mode = .digits units left value)
    (h : lexer.step b = some next) : next.Within (size + 1) := by
  have hsound := hl.sound
  unfold step at h
  rw [hmode] at hsound h
  simp only [Option.bind_eq_bind, Option.bind_eq_some_iff] at h
  obtain ⟨digit, _, hnext⟩ := h
  split at hnext
  · obtain rfl := Option.some.inj hnext
    refine hl.unit hsound trivial ?_
    simp only [hmode, Mode.size, TextUnit.spell, List.length_cons, List.length_nil]
    omega
  · obtain rfl := Option.some.inj hnext
    exact hl.stay hsound (by simp [hmode, Mode.size]; omega)

/-- **Each byte that is read adds at most one byte to what is kept.** -/
theorem within_step {lexer : Lexer} {size : Nat} {b : UInt8} {next : Lexer}
    (hl : lexer.Within size) (h : lexer.step b = some next) : next.Within (size + 1) := by
  have hsound := hl.sound
  cases hmode : lexer.mode with
  | text units => exact within_text hl hmode h
  | escape units => exact within_escape hl hmode h
  | digits units left value => exact within_digits hl hmode h
  | between =>
    unfold step at h
    rw [hmode] at h
    exact within_leave hl h
  | word letters =>
    unfold step at h
    rw [hmode] at h
    dsimp only at h
    split at h
    · obtain rfl := Option.some.inj h
      exact hl.stay trivial (by simp [hmode, Mode.size])
    · exact within_leave hl h
  | number phase literal =>
    unfold step at h
    rw [hmode] at hsound h
    dsimp only at h
    split at h
    · rename_i phase' hnext
      obtain rfl := Option.some.inj h
      refine hl.stay ?_ (by simp [hmode, Mode.size])
      simpa [Mode.Sound] using NumberPhase.ofLiteral?_snoc hsound hnext
    · exact within_leave hl h

/-- A run keeps no more than it reads. -/
theorem within_foldlM {lexer last : Lexer} {size : Nat} {b : Bytes} (hl : lexer.Within size)
    (h : b.foldlM step lexer = some last) : last.Within (size + b.length) := by
  -- The bound grows by one with each byte.
  induction b generalizing lexer size with
  | nil =>
    obtain rfl := Option.some.inj h
    exact hl
  | cons x b ih =>
    rw [List.foldlM_cons, Option.bind_eq_bind, Option.bind_eq_some_iff] at h
    obtain ⟨next, hstep, hrest⟩ := h
    have := ih (within_step hl hstep) hrest
    rwa [List.length_cons, Nat.add_comm b.length 1, ← Nat.add_assoc]

end Lexer

/-! ### Whole texts -/

/-- The tokens of a text are readable, and spelled without blanks they are no longer than it. -/
theorem Token.read?_size {b : Bytes} {tokens : List Token} (h : read? b = some tokens) :
    (∀ t ∈ tokens, t.Readable) ∧ size tokens ≤ b.length := by
  simp only [read?, Option.bind_eq_bind, Option.bind_eq_some_iff] at h
  obtain ⟨lexer, hrun, last, hsettle, htokens⟩ := h
  obtain rfl := Option.some.inj htokens
  have hstart : Lexer.start.Within 0 := ⟨by simp [Lexer.start], trivial, Nat.le_refl 0⟩
  obtain ⟨hread, hsize⟩ := Lexer.within_settle (Lexer.within_foldlM hstart hrun) hsettle
  refine ⟨fun t ht => hread t (List.mem_reverse.mp ht), ?_⟩
  rw [size_reverse]
  omega

/-- **A text is no shorter than the value that it spells**, printed without blanks. -/
theorem parse?_size {b : Bytes} {value : Json} (h : parse? b = some value) :
    value.Readable ∧ Token.size value.tokens ≤ b.length := by
  simp only [parse?, Option.bind_eq_bind, Option.bind_eq_some_iff] at h
  obtain ⟨tokens, hread, hvalue⟩ := h
  obtain rfl := ofTokens?_eq_some_iff.mp hvalue
  exact Token.read?_size hread

/-- Printing without blanks spells token after token. -/
theorem print_compact (value : Json) : value.print .compact = value.tokens.flatMap Token.spell := by
  rw [print, Layout.write_eq_writeFrom]
  suffices h : ∀ depth tokens,
      Layout.compact.writeFrom depth tokens = tokens.flatMap Token.spell from h 0 value.tokens
  intro depth tokens
  induction tokens generalizing depth with
  | nil => rfl
  | cons t rest ih =>
    cases rest with
    | nil => simp [Layout.writeFrom]
    | cons after rest => rw [Layout.writeFrom, ih]; rfl

theorem length_print_compact (value : Json) :
    (value.print .compact).length = Token.size value.tokens := by
  rw [print_compact, Token.size]

/-! ### Objects -/

/-- The number of bytes that members take in an object, each with the comma or brace before it. -/
def membersSize : List (List TextUnit × Json) → Nat
  | [] => 0
  | (name, value) :: members =>
    4 + TextUnit.size name + Token.size value.tokens + membersSize members

theorem membersSize_append (members more : List (List TextUnit × Json)) :
    membersSize (members ++ more) = membersSize members + membersSize more := by
  induction members with
  | nil => simp [membersSize]
  | cons member members ih =>
    rw [List.cons_append, membersSize, membersSize, ih]
    omega

theorem size_moreMembers (members : List (List TextUnit × Json)) :
    Token.size (moreMembers members) = membersSize members := by
  induction members with
  | nil => rfl
  | cons member members ih =>
    -- Four bytes besides the name and the value: a comma, a colon and two quotes.
    have hcomma : Token.comma.spell.length = 1 := rfl
    have hcolon : Token.colon.spell.length = 1 := rfl
    rw [moreMembers, membersSize, ← ih]
    simp only [Token.size_cons, Token.size_append, Token.length_spell_text, hcomma, hcolon]
    omega

/-- An object takes at least the bytes that its members take. -/
theorem membersSize_lt (members : List (List TextUnit × Json)) :
    membersSize members < Token.size (object members).tokens := by
  cases members with
  | nil => decide
  | cons member members =>
    have hopen : Token.openObject.spell.length = 1 := rfl
    have hclose : Token.closeObject.spell.length = 1 := rfl
    have hcolon : Token.colon.spell.length = 1 := rfl
    rw [tokens, membersSize, ← size_moreMembers]
    simp only [Token.size_cons, Token.size_append, Token.size_nil, Token.length_spell_text, hopen,
      hclose, hcolon]
    omega

/-! ### Quoted texts and what they stand for -/

namespace TextUnit

/-- The bytes that a text takes between quotes. -/
theorem size_map_ofByte_append (b c : Bytes) :
    size ((b ++ c).map ofByte) = size (b.map ofByte) + size (c.map ofByte) := by
  rw [List.map_append, size_append]

/-- A byte takes six bytes at most: those of an escape by digits. -/
theorem length_spell_ofByte (value : UInt8) : (ofByte value).spell.length ≤ 6 := by
  unfold ofByte
  split
  · simp [spell]
  · rw [spell]
    split <;> simp

theorem length_spell_ofByte_high {value : UInt8} (h : 128 ≤ value.toNat) :
    (ofByte value).spell.length = 1 := by
  have hlow : ¬value < 0x20 := fun hlt => by
    have : value.toNat < 32 := hlt
    omega
  have hletter : toEscape? value = none := by
    apply toEscape?_eq_none
    · rintro rfl
      exact absurd h (by decide)
    · rintro rfl
      exact absurd h (by decide)
    · exact hlow
  rw [ofByte, if_neg (fun hand => hlow hand.1)]
  exact length_spell_byte hletter

/-- A readable byte is written again as it was. -/
theorem ofByte_eq_byte {value : UInt8} (h : (byte value).Readable) : ofByte value = byte value := by
  rw [ofByte, if_neg (fun hand => h hand.1 hand.2)]

/-- Bytes above the control characters and the letters take one byte each. -/
theorem size_map_ofByte_high {b : Bytes} (h : ∀ x ∈ b, 128 ≤ x.toNat) :
    size (b.map ofByte) = b.length := by
  induction b with
  | nil => rfl
  | cons x b ih =>
    rw [List.map_cons, size_cons, length_spell_ofByte_high (h x (by simp)),
      ih (fun y hy => h y (by simp [hy])), List.length_cons, Nat.add_comm]

/-- A character takes six bytes between quotes at most. -/
theorem size_pointBytes (point : Nat) : size ((pointBytes point).map ofByte) ≤ 6 := by
  unfold pointBytes
  by_cases hlow : (Char.ofNat point).val.toNat ≤ 0x7f
  · rw [String.utf8EncodeChar]
    simp only [if_pos hlow, List.map_cons, List.map_nil, size_cons, size_nil]
    exact length_spell_ofByte _
  · -- All bytes of a longer character have their highest bit set.
    have hhigh : ∀ x ∈ String.utf8EncodeChar (Char.ofNat point), 128 ≤ x.toNat := by
      rw [String.utf8EncodeChar]
      simp only [if_neg hlow]
      split
      · simp; omega
      split
      · simp; omega
      · simp; omega
    rw [size_map_ofByte_high hhigh, String.length_utf8EncodeChar]
    have := Char.utf8Size_le_four (Char.ofNat point)
    omega

/-- A text takes six bytes for each of its characters at most. -/
theorem size_ofText_le_length (s : String) : size (ofText s) ≤ 6 * s.length := by
  obtain ⟨chars, rfl⟩ : ∃ chars, s = String.ofList chars := ⟨s.toList, s.ofList_toList.symm⟩
  rw [ofText, Bytes.ofText_ofList, String.length_ofList]
  induction chars with
  | nil => exact Nat.le_refl 0
  | cons c chars ih =>
    have hpoint : size ((String.utf8EncodeChar c).map ofByte) ≤ 6 := by
      have hsize := size_pointBytes c.toNat
      rwa [pointBytes, Char.ofNat_toNat] at hsize
    rw [List.flatMap_cons, size_map_ofByte_append, List.length_cons]
    omega

/-- Written again, the bytes that units stand for are no longer than the units. -/
theorem size_bytesOnto {units : List TextUnit} {done b : Bytes} (hread : ∀ u ∈ units, u.Readable)
    (h : bytesOnto done units = some b) :
    size (b.map ofByte) ≤ size (done.reverse.map ofByte) + size units := by
  -- A byte, a pair of UTF-16 units or a single one comes first; a lone half of a pair means
  -- nothing.
  fun_induction bytesOnto done units with
  | case1 done =>
    obtain rfl := Option.some.inj h
    simp
  | case2 done value rest ih =>
    have hvalue : (byte value).Readable := hread _ (by simp)
    have hrest := ih (fun u hu => hread u (by simp [hu])) h
    rw [List.reverse_cons, size_map_ofByte_append, List.map_singleton,
      ofByte_eq_byte hvalue] at hrest
    simp only [size_cons, size_nil] at hrest ⊢
    omega
  | case3 done value hhigh low rest hlow ih =>
    have hrest := ih (fun u hu => hread u (by simp [hu])) h
    have hpair := size_pointBytes (pairPoint value low)
    rw [List.reverse_append, List.reverse_reverse, size_map_ofByte_append] at hrest
    simp only [size_cons, spell, List.length_cons, List.length_nil]
    omega
  | case4 => simp at h
  | case5 => simp at h
  | case6 => simp at h
  | case7 done value rest hhigh hlow ih =>
    have hrest := ih (fun u hu => hread u (by simp [hu])) h
    have hpoint := size_pointBytes value.toNat
    rw [List.reverse_append, List.reverse_reverse, size_map_ofByte_append] at hrest
    simp only [size_cons, spell, List.length_cons, List.length_nil]
    omega

/-- **A text is written no longer than it was read.** -/
theorem size_ofText_le {units : List TextUnit} {s : String} (hread : ∀ u ∈ units, u.Readable)
    (h : toText? units = some s) : size (ofText s) ≤ size units := by
  simp only [toText?, Option.bind_eq_bind, Option.bind_eq_some_iff] at h
  obtain ⟨b, hbytes, hs⟩ := h
  have hsize := size_bytesOnto hread hbytes
  rw [ofText, Bytes.ofText_of_toText? hs]
  simpa using hsize

end TextUnit

end Lockbox.Json
