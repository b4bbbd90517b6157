import Lockbox.Proofs.Json.Numbers

namespace Lockbox.Json

/-!
# The grammar of JSON texts

All the ways in which a value can be written: any blanks between the tokens, any escapes in a quoted
text, and nothing else.  A text that is read writes the value that is read from it, and every
writing of a value is read as that value.

* `TextUnit.WrittenAs`, `Token.WrittenAs` — the writings of a unit and of a token.
* `Token.Written`, `WrittenAs` — tokens, and values, with blanks around them.
* `Lexer.holds_step`, `Lexer.foldlM_written` — the two directions, byte by byte and token by token.
* `parse?_eq_some_iff` — the texts that are read are the writings of a value.
-/

/-! ### Writings -/

/-- A number with one more hexadecimal digit, of either case. -/
def withHexDigit? (n : Nat) (b : UInt8) : Option Nat :=
  (Hex.value? (Char.ofUInt8 b)).map fun digit => n * 16 + digit

/-- The number that hexadecimal digits stand for. -/
def hexValue? (digits : Bytes) : Option Nat := digits.foldlM withHexDigit? 0

/-- A unit as it may stand between quotes: as itself, as a letter after a backslash, or as four
    digits. -/
inductive TextUnit.WrittenAs : TextUnit → Bytes → Prop
  | plain {value : UInt8} (hquote : value ≠ '"'.toUInt8) (hslash : value ≠ '\\'.toUInt8)
      (hcontrol : ¬value < 0x20) : WrittenAs (.byte value) [value]
  | letter {letter value : UInt8} (h : ofEscape? letter = some value) :
      WrittenAs (.byte value) ['\\'.toUInt8, letter]
  | digits {digits : Bytes} {value : Nat} (hlength : digits.length = 4)
      (h : hexValue? digits = some value) :
      WrittenAs (.utf16 (UInt16.ofNat value)) ('\\'.toUInt8 :: 'u'.toUInt8 :: digits)

/-- Units as they may stand between quotes. -/
inductive TextUnit.Written : List TextUnit → Bytes → Prop
  | nil : Written [] []
  | cons {u : TextUnit} {units : List TextUnit} {b rest : Bytes} (h : u.WrittenAs b)
      (hrest : Written units rest) : Written (u :: units) (b ++ rest)

/-- A token as it may stand in a text: only quoted texts have more than one writing. -/
def Token.WrittenAs : Token → Bytes → Prop
  | number literal, b => IsNumber literal ∧ b = literal
  | text units, b => ∃ inner, TextUnit.Written units inner ∧
      b = '"'.toUInt8 :: (inner ++ ['"'.toUInt8])
  | token, b => b = token.spell

/-- Nothing but blanks. -/
def IsBlank (b : Bytes) : Prop := ∀ x ∈ b, Token.isBlank x = true

/-- Tokens with blanks before, between and after them. -/
inductive Token.Written : List Token → Bytes → Prop
  | nil {blanks : Bytes} (h : IsBlank blanks) : Written [] blanks
  | cons {t : Token} {tokens : List Token} {blanks b rest : Bytes} (hblanks : IsBlank blanks)
      (h : t.WrittenAs b) (hrest : Written tokens rest) :
      Written (t :: tokens) (blanks ++ (b ++ rest))

end Json

/-- The text writes the value. -/
def Json.WrittenAs (value : Json) (b : Bytes) : Prop := Json.Token.Written value.tokens b

namespace Json

/-! ### Writing on -/

theorem isBlank_nil : IsBlank [] := by simp [IsBlank]

theorem IsBlank.append {b c : Bytes} (hb : IsBlank b) (hc : IsBlank c) : IsBlank (b ++ c) := by
  intro x hx
  rcases List.mem_append.mp hx with hx | hx
  · exact hb x hx
  · exact hc x hx

/-- One more unit. -/
theorem TextUnit.Written.snoc {units : List TextUnit} {u : TextUnit} {b c : Bytes}
    (h : Written units b) (hu : u.WrittenAs c) : Written (units ++ [u]) (b ++ c) := by
  induction h with
  | nil => simpa using Written.cons hu .nil
  | cons hfirst _ ih =>
    rw [List.cons_append, List.append_assoc]
    exact .cons hfirst ih

/-- Blanks after the tokens. -/
theorem Token.Written.blanks {tokens : List Token} {b blanks : Bytes} (h : Written tokens b)
    (hblanks : IsBlank blanks) : Written tokens (b ++ blanks) := by
  induction h with
  | nil hnil => exact .nil (hnil.append hblanks)
  | cons hbefore hfirst _ ih =>
    rw [List.append_assoc, List.append_assoc]
    exact .cons hbefore hfirst ih

/-- One more token. -/
theorem Token.Written.snoc {tokens : List Token} {t : Token} {b c : Bytes} (h : Written tokens b)
    (ht : t.WrittenAs c) : Written (tokens ++ [t]) (b ++ c) := by
  induction h with
  | nil hnil =>
    have hwritten := Written.cons hnil ht (.nil isBlank_nil)
    rwa [List.append_nil] at hwritten
  | cons hbefore hfirst _ ih =>
    rw [List.cons_append, List.append_assoc, List.append_assoc]
    exact .cons hbefore hfirst ih

/-- A punctuation mark is written as the byte that it is read from. -/
theorem Token.writtenAs_punctuation {b : UInt8} {t : Token} (h : ofPunctuation? b = some t) :
    t.WrittenAs [b] := by
  unfold ofPunctuation? at h
  repeat'
    split at h
    · subst b
      obtain rfl := Option.some.inj h
      rfl
  simp at h

/-- A word is written with the letters that it is read from. -/
theorem Token.writtenAs_word {letters : Bytes} {t : Token} (h : ofWord? letters = some t) :
    t.WrittenAs letters := by
  unfold ofWord? at h
  repeat'
    split at h
    · rename_i hletters
      obtain rfl := Option.some.inj h
      exact hletters
  simp at h

/-- One more hexadecimal digit. -/
theorem hexValue?_snoc {digits : Bytes} {value digit : Nat} {b : UInt8}
    (h : hexValue? digits = some value) (hb : Hex.value? (Char.ofUInt8 b) = some digit) :
    hexValue? (digits ++ [b]) = some (value * 16 + digit) := by
  rw [hexValue?] at h ⊢
  rw [List.foldlM_append, h]
  simp [withHexDigit?, hb]

/-! ### What is read was written -/

namespace Lexer

/-- What has been read of the token that the reader is in the middle of. -/
def Mode.Holds : Mode → Bytes → Prop
  | .between, b => b = []
  | .word letters, b => b = letters.reverse
  | .number phase literal, b =>
    b = literal.reverse ∧ NumberPhase.ofLiteral? literal.reverse = some phase
  | .text units, b => ∃ inner, TextUnit.Written units.reverse inner ∧ b = '"'.toUInt8 :: inner
  | .escape units, b => ∃ inner, TextUnit.Written units.reverse inner ∧
      b = '"'.toUInt8 :: (inner ++ ['\\'.toUInt8])
  | .digits units left value, b => ∃ inner digits, TextUnit.Written units.reverse inner ∧
      digits.length + left = 4 ∧ 0 < left ∧ hexValue? digits = some value ∧
      b = '"'.toUInt8 :: (inner ++ '\\'.toUInt8 :: 'u'.toUInt8 :: digits)

/-- The reader has read these bytes: they write its tokens, and what it has begun. -/
def Holds (lexer : Lexer) (read : Bytes) : Prop :=
  ∃ before current, Token.Written lexer.tokens.reverse before ∧ lexer.mode.Holds current ∧
    read = before ++ current

/-- Between the tokens all that has been read writes them. -/
theorem holds_between {tokens : List Token} {read : Bytes}
    (h : Token.Written tokens.reverse read) : Holds ⟨tokens, .between⟩ read :=
  ⟨read, [], h, rfl, (List.append_nil read).symm⟩

/-- The first byte of a token, or a blank. -/
theorem holds_enter {tokens : List Token} {read : Bytes} {b : UInt8} {next : Lexer}
    (hread : Token.Written tokens.reverse read) (h : enter tokens b = some next) :
    next.Holds (read ++ [b]) := by
  -- A blank, a quote, a letter, a punctuation mark, or the first byte of a number.
  unfold enter at h
  split at h
  · rename_i hblank
    obtain rfl := Option.some.inj h
    exact holds_between (hread.blanks (by simpa [IsBlank] using hblank))
  split at h
  · subst b
    obtain rfl := Option.some.inj h
    exact ⟨read, _, hread, ⟨[], .nil, rfl⟩, rfl⟩
  split at h
  · obtain rfl := Option.some.inj h
    exact ⟨read, _, hread, rfl, rfl⟩
  split at h
  · rename_i t hpunctuation
    obtain rfl := Option.some.inj h
    apply holds_between
    rw [List.reverse_cons]
    exact hread.snoc (Token.writtenAs_punctuation hpunctuation)
  · rename_i phase hphase
    obtain rfl := Option.some.inj h
    refine ⟨read, [b], hread, ⟨rfl, ?_⟩, rfl⟩
    simp [NumberPhase.ofLiteral?, hphase]
  · simp at h

/-- The end of a token. -/
theorem holds_settle {lexer : Lexer} {read : Bytes} {tokens : List Token} (hl : lexer.Holds read)
    (h : lexer.settle? = some tokens) : Token.Written tokens.reverse read := by
  obtain ⟨done, mode⟩ := lexer
  obtain ⟨before, current, hbefore, hcurrent, rfl⟩ := hl
  simp only at hbefore hcurrent
  -- Words and numbers may end here; what has been opened by a quote may not.
  cases mode with
  | between =>
    obtain rfl : current = [] := hcurrent
    obtain rfl := Option.some.inj h
    rwa [List.append_nil]
  | word letters =>
    obtain rfl : current = letters.reverse := hcurrent
    simp only [settle?, Option.bind_eq_bind, Option.bind_eq_some_iff] at h
    obtain ⟨t, hword, htokens⟩ := h
    obtain rfl := Option.some.inj htokens
    rw [List.reverse_cons]
    exact hbefore.snoc (Token.writtenAs_word hword)
  | number phase literal =>
    obtain ⟨rfl, hphase⟩ := hcurrent
    simp only [settle?] at h
    split at h
    · rename_i hcomplete
      obtain rfl := Option.some.inj h
      rw [List.reverse_cons]
      exact hbefore.snoc ⟨readable_number_iff.mp ⟨phase, hphase, hcomplete⟩, rfl⟩
    · simp at h
  | text units => simp [settle?] at h
  | escape units => simp [settle?] at h
  | digits units left value => simp [settle?] at h

/-- The end of a token and the first byte after it. -/
theorem holds_leave {lexer next : Lexer} {read : Bytes} {b : UInt8} (hl : lexer.Holds read)
    (h : lexer.leave b = some next) : next.Holds (read ++ [b]) := by
  simp only [Lexer.leave, Option.bind_eq_bind, Option.bind_eq_some_iff] at h
  obtain ⟨tokens, hsettle, henter⟩ := h
  exact holds_enter (holds_settle hl hsettle) henter

/-- One more unit of a quoted text. -/
theorem holds_unit {tokens : List Token} {units : List TextUnit} {u : TextUnit}
    {before inner current : Bytes} (hbefore : Token.Written tokens.reverse before)
    (hinner : TextUnit.Written units.reverse inner) (hu : u.WrittenAs current) :
    Holds ⟨tokens, .text (u :: units)⟩ (before ++ '"'.toUInt8 :: (inner ++ current)) := by
  refine ⟨before, _, hbefore, ⟨inner ++ current, ?_, rfl⟩, rfl⟩
  rw [List.reverse_cons]
  exact hinner.snoc hu

/-- The quote that ends a text, a backslash, or a byte that stands for itself. -/
theorem holds_text {tokens : List Token} {units : List TextUnit} {read : Bytes} {b : UInt8}
    {next : Lexer} (hl : Holds ⟨tokens, .text units⟩ read)
    (h : step ⟨tokens, .text units⟩ b = some next) : next.Holds (read ++ [b]) := by
  obtain ⟨before, _, hbefore, ⟨inner, hinner, rfl⟩, rfl⟩ := hl
  simp only [step] at h
  split at h
  · subst b
    obtain rfl := Option.some.inj h
    apply holds_between
    rw [List.reverse_cons, List.append_assoc]
    exact hbefore.snoc ⟨inner, hinner, rfl⟩
  split at h
  · subst b
    obtain rfl := Option.some.inj h
    exact ⟨before, _, hbefore, ⟨inner, hinner, rfl⟩, by simp⟩
  split at h
  · simp at h
  · rename_i hquote hslash hcontrol
    obtain rfl := Option.some.inj h
    have hunit := holds_unit hbefore hinner (.plain hquote hslash hcontrol)
    rwa [List.append_assoc, List.cons_append]

/-- The byte after a backslash. -/
theorem holds_escape {tokens : List Token} {units : List TextUnit} {read : Bytes} {b : UInt8}
    {next : Lexer} (hl : Holds ⟨tokens, .escape units⟩ read)
    (h : step ⟨tokens, .escape units⟩ b = some next) : next.Holds (read ++ [b]) := by
  obtain ⟨before, _, hbefore, ⟨inner, hinner, rfl⟩, rfl⟩ := hl
  simp only [step] at h
  split at h
  · subst b
    obtain rfl := Option.some.inj h
    exact ⟨before, _, hbefore, ⟨inner, [], hinner, rfl, by decide, rfl, rfl⟩, by simp⟩
  · simp only [Option.bind_eq_bind, Option.bind_eq_some_iff] at h
    obtain ⟨value, hvalue, hnext⟩ := h
    obtain rfl := Option.some.inj hnext
    have hunit := holds_unit hbefore hinner (.letter hvalue)
    simpa using hunit

/-- One of four hexadecimal digits. -/
theorem holds_digits {tokens : List Token} {units : List TextUnit} {left value : Nat}
    {read : Bytes} {b : UInt8} {next : Lexer} (hl : Holds ⟨tokens, .digits units left value⟩ read)
    (h : step ⟨tokens, .digits units left value⟩ b = some next) : next.Holds (read ++ [b]) := by
  obtain ⟨before, _, hbefore, ⟨inner, digits, hinner, hlength, hleft, hvalue, rfl⟩, rfl⟩ := hl
  simp only [step, Option.bind_eq_bind, Option.bind_eq_some_iff] at h
  obtain ⟨digit, hdigit, hnext⟩ := h
  have hmore := hexValue?_snoc hvalue hdigit
  split at hnext
  · obtain rfl := Option.some.inj hnext
    have hfour : (digits ++ [b]).length = 4 := by simp; omega
    have hunit := holds_unit hbefore hinner (.digits hfour hmore)
    simpa using hunit
  · obtain rfl := Option.some.inj hnext
    refine ⟨before, _, hbefore, ⟨inner, digits ++ [b], hinner, ?_, by omega, hmore, rfl⟩, by simp⟩
    simp
    omega

/-- **What has been read stays what the state stands for**, byte by byte. -/
theorem holds_step {lexer next : Lexer} {read : Bytes} {b : UInt8} (hl : lexer.Holds read)
    (h : lexer.step b = some next) : next.Holds (read ++ [b]) := by
  obtain ⟨tokens, mode⟩ := lexer
  cases mode with
  | text units => exact holds_text hl h
  | escape units => exact holds_escape hl h
  | digits units left value => exact holds_digits hl h
  | between => exact holds_leave hl h
  | word letters =>
    simp only [step] at h
    split at h
    · obtain rfl := Option.some.inj h
      obtain ⟨before, _, hbefore, rfl, rfl⟩ := hl
      exact ⟨before, _, hbefore, rfl, by simp⟩
    · exact holds_leave hl h
  | number phase literal =>
    simp only [step] at h
    split at h
    · rename_i next hnext
      obtain rfl := Option.some.inj h
      obtain ⟨before, _, hbefore, ⟨rfl, hphase⟩, rfl⟩ := hl
      refine ⟨before, _, hbefore, ⟨rfl, ?_⟩, by simp⟩
      rw [List.reverse_cons]
      exact NumberPhase.ofLiteral?_snoc hphase hnext
    · exact holds_leave hl h

/-- What a run has read. -/
theorem holds_foldlM {lexer last : Lexer} {read b : Bytes} (hl : lexer.Holds read)
    (h : b.foldlM step lexer = some last) : last.Holds (read ++ b) := by
  induction b generalizing lexer read with
  | nil =>
    obtain rfl := Option.some.inj h
    rwa [List.append_nil]
  | cons x b ih =>
    rw [List.foldlM_cons, Option.bind_eq_bind, Option.bind_eq_some_iff] at h
    obtain ⟨next, hstep, hrest⟩ := h
    have hlast := ih (holds_step hl hstep) hrest
    rwa [List.append_assoc, List.singleton_append] at hlast

end Lexer

/-- A text that is read writes its tokens. -/
theorem Token.written_of_read? {b : Bytes} {tokens : List Token} (h : read? b = some tokens) :
    Written tokens b := by
  simp only [read?, Option.bind_eq_bind, Option.bind_eq_some_iff] at h
  obtain ⟨lexer, hrun, last, hsettle, htokens⟩ := h
  obtain rfl := Option.some.inj htokens
  have hstart : Lexer.start.Holds [] := Lexer.holds_between (.nil isBlank_nil)
  exact Lexer.holds_settle (Lexer.holds_foldlM hstart hrun) hsettle

/-! ### What is written is read -/

namespace Lexer

/-- The digits that are missing of a UTF-16 unit. -/
theorem foldlM_hexDigits {tokens : List Token} {units : List TextUnit} {left value final : Nat}
    {digits : Bytes} (hlength : digits.length = left) (hleft : 0 < left)
    (h : digits.foldlM withHexDigit? value = some final) :
    digits.foldlM step ⟨tokens, .digits units left value⟩ =
      some ⟨tokens, .text (.utf16 (UInt16.ofNat final) :: units)⟩ := by
  induction digits generalizing left value with
  | nil =>
    rw [← hlength] at hleft
    simp at hleft
  | cons b rest ih =>
    rw [List.foldlM_cons, Option.bind_eq_bind, Option.bind_eq_some_iff] at h
    obtain ⟨next, hnext, hrest⟩ := h
    obtain ⟨digit, hdigit, rfl⟩ := Option.map_eq_some_iff.mp hnext
    rw [List.length_cons] at hlength
    rw [List.foldlM_cons]
    by_cases hlast : rest = []
    · subst hlast
      obtain rfl := Option.some.inj hrest
      have hone : left ≤ 1 := by simp at hlength; omega
      simp [step, hdigit, hone]
    · have hpos : 0 < rest.length := List.length_pos_iff.mpr hlast
      have hmore : ¬left ≤ 1 := by omega
      have hstep : step ⟨tokens, .digits units left value⟩ b =
          some ⟨tokens, .digits units (left - 1) (value * 16 + digit)⟩ := by
        simp [step, hdigit, hmore]
      rw [hstep, Option.bind_eq_bind, Option.bind_some]
      exact ih (by omega) (by omega) hrest

/-- A unit is read from each of its writings. -/
theorem foldlM_writtenAs_unit {tokens : List Token} {units : List TextUnit} {u : TextUnit}
    {b : Bytes} (h : u.WrittenAs b) :
    b.foldlM step ⟨tokens, .text units⟩ = some ⟨tokens, .text (u :: units)⟩ := by
  have hslash : step ⟨tokens, .text units⟩ '\\'.toUInt8 = some ⟨tokens, .escape units⟩ := by
    simp [step, show ('\\'.toUInt8 = '"'.toUInt8) = False by decide]
  cases h with
  | plain hquote hback hcontrol => simp [step, hquote, hback, hcontrol]
  | @letter letter value hletter =>
    have hne : letter ≠ 'u'.toUInt8 := by
      rintro rfl
      rw [show TextUnit.ofEscape? 'u'.toUInt8 = none by decide] at hletter
      simp at hletter
    have hread : step ⟨tokens, .escape units⟩ letter =
        some ⟨tokens, .text (.byte value :: units)⟩ := by
      simp [step, hne, hletter]
    simp [hslash, hread]
  | digits hlength hvalue =>
    have hu : step ⟨tokens, .escape units⟩ 'u'.toUInt8 = some ⟨tokens, .digits units 4 0⟩ := by
      simp [step]
    rw [List.foldlM_cons, hslash, Option.bind_eq_bind, Option.bind_some, List.foldlM_cons, hu,
      Option.bind_eq_bind, Option.bind_some]
    exact foldlM_hexDigits hlength (by decide) hvalue

/-- Units are read from their writings. -/
theorem foldlM_written_units {tokens : List Token} {done units : List TextUnit} {b : Bytes}
    (h : TextUnit.Written units b) :
    b.foldlM step ⟨tokens, .text done⟩ = some ⟨tokens, .text (units.reverse ++ done)⟩ := by
  induction h generalizing done with
  | nil => rfl
  | cons hfirst _ ih =>
    rw [List.foldlM_append, foldlM_writtenAs_unit hfirst, Option.bind_eq_bind, Option.bind_some, ih,
      List.reverse_cons, List.append_assoc, List.singleton_append]

/-- A token is read from each of its writings; only after a word or a number is the reader not yet
    back between the tokens. -/
theorem foldlM_writtenAs {tokens : List Token} {t : Token} {b : Bytes} (h : t.WrittenAs b) :
    ∃ lexer, b.foldlM step ⟨tokens, .between⟩ = some lexer ∧ Settled lexer (t :: tokens) ∧
      (t.isPunctuation = true → lexer = ⟨t :: tokens, .between⟩) := by
  cases t with
  | text units =>
    obtain ⟨inner, hinner, rfl⟩ := h
    have hopen : step ⟨tokens, .between⟩ '"'.toUInt8 = some ⟨tokens, .text []⟩ := enter_quote tokens
    have hclose : step ⟨tokens, .text units.reverse⟩ '"'.toUInt8 =
        some ⟨.text units :: tokens, .between⟩ := by
      simp [step]
    refine ⟨_, ?_, settled_between _, fun _ => rfl⟩
    rw [List.foldlM_cons, hopen, Option.bind_eq_bind, Option.bind_some, List.foldlM_append,
      foldlM_written_units hinner, List.append_nil, Option.bind_eq_bind, Option.bind_some,
      List.foldlM_cons, hclose]
    rfl
  | number literal =>
    obtain ⟨hnumber, rfl⟩ := h
    exact foldlM_spell tokens (readable_number_iff.mpr hnumber)
  | null | bool _ | openArray | closeArray | openObject | closeObject | comma | colon =>
    obtain rfl := h
    exact foldlM_spell tokens trivial

/-- A punctuation mark is written as it is spelled. -/
theorem eq_spell_of_isPunctuation {t : Token} {b : Bytes} (ht : t.isPunctuation = true)
    (h : t.WrittenAs b) : b = t.spell := by
  cases t with
  | openArray | closeArray | openObject | closeObject | comma | colon => exact h
  | null | bool _ | number _ | text _ => simp [Token.isPunctuation] at ht

/-- **Tokens are read from each of their writings**, as long as no two of them need a blank that is
    not there. -/
theorem foldlM_written {lexer : Lexer} {done tokens : List Token} {b : Bytes}
    (hl : Settled lexer done)
    (hstart : lexer = ⟨done, .between⟩ ∨ ∀ t ∈ tokens.head?, t.isPunctuation = true)
    (hparted : tokens.IsChain Token.Parted) (h : Token.Written tokens b) :
    ∃ last, b.foldlM step lexer = some last ∧ Settled last (tokens.reverse ++ done) := by
  induction h generalizing lexer done with
  | @nil blanks hblanks =>
    cases blanks with
    | nil => exact ⟨lexer, rfl, hl⟩
    | cons x rest =>
      exact ⟨_, foldlM_blanks hl (List.cons_ne_nil x rest) hblanks, settled_between done⟩
  | @cons t tokens blanks b rest hblanks ht _ ih =>
    -- Blanks, or a punctuation mark, take the reader on from wherever it is.
    obtain ⟨next, hnext, hsettled, hback⟩ : ∃ next,
        (blanks ++ b).foldlM step lexer = some next ∧ Settled next (t :: done) ∧
        (t.isPunctuation = true → next = ⟨t :: done, .between⟩) := by
      rw [List.foldlM_append]
      cases blanks with
      | cons x more =>
        rw [foldlM_blanks hl (List.cons_ne_nil x more) hblanks, Option.bind_eq_bind,
          Option.bind_some]
        exact foldlM_writtenAs ht
      | nil =>
        rw [List.foldlM_nil, Option.bind_eq_bind, Option.pure_def, Option.bind_some]
        rcases hstart with rfl | hpunct
        · exact foldlM_writtenAs ht
        · have hp : t.isPunctuation = true := hpunct t (by simp)
          rw [eq_spell_of_isPunctuation hp ht]
          exact ⟨_, foldlM_spell_punctuation hl hp, settled_between _, fun _ => rfl⟩
    have hstart' : next = ⟨t :: done, .between⟩ ∨ ∀ u ∈ tokens.head?, u.isPunctuation = true := by
      cases tokens with
      | nil => exact .inr (by simp)
      | cons after tokens =>
        rcases (List.isChain_cons_cons.mp hparted).1 with hp | hp
        · exact .inl (hback hp)
        · exact .inr (by simpa using hp)
    obtain ⟨last, hlast, hfinal⟩ := ih hsettled hstart' hparted.tail
    refine ⟨last, ?_, ?_⟩
    · rw [← List.append_assoc, List.foldlM_append, hnext]
      exact hlast
    · rwa [List.reverse_cons, List.append_assoc, List.singleton_append]

end Lexer

/-- Tokens are read from each of their writings. -/
theorem Token.read?_of_written {b : Bytes} {tokens : List Token}
    (hparted : tokens.IsChain Token.Parted) (h : Written tokens b) : read? b = some tokens := by
  obtain ⟨lexer, hrun, hsettled⟩ :=
    Lexer.foldlM_written (Lexer.settled_between []) (.inl rfl) hparted h
  rw [read?]
  simp [Lexer.start, hrun, hsettled.settle]

/-! ### Values -/

/-- The tokens of a value can stand side by side. -/
theorem isChain_tokens_self (value : Json) : value.tokens.IsChain Token.Parted := by
  have hchain : (value.tokens ++ []).IsChain Token.Parted := isChain_tokens value (by simp) .nil
  rwa [List.append_nil] at hchain

/-- **The texts that are read are the writings of a value**, and each is read as that value. -/
theorem parse?_eq_some_iff {b : Bytes} {value : Json} :
    parse? b = some value ↔ value.WrittenAs b := by
  constructor
  · intro h
    simp only [parse?, Option.bind_eq_bind, Option.bind_eq_some_iff] at h
    obtain ⟨tokens, hread, htokens⟩ := h
    obtain rfl := ofTokens?_eq_some_iff.mp htokens
    exact Token.written_of_read? hread
  · intro h
    rw [parse?, Token.read?_of_written (isChain_tokens_self value) h]
    exact ofTokens?_tokens value

/-- A text that is read still is with blanks after it. -/
theorem parse?_blanks {b blanks : Bytes} {value : Json} (h : parse? b = some value)
    (hblanks : IsBlank blanks) : parse? (b ++ blanks) = some value :=
  parse?_eq_some_iff.mpr ((parse?_eq_some_iff.mp h).blanks hblanks)

end Json

end Lockbox
