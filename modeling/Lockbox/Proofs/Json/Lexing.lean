import Lockbox.Json.Layout
import Mathlib.Data.List.Chain

namespace Lockbox.Json

/-!
# Tokens read back

A token that is spelled can be read again, whatever stands around it, as long as a blank or a
punctuation mark ends the words and numbers.

* `TextUnit.Readable`, `Token.Readable` — what can stand in a JSON text at all.
* `Lexer.Settled` — the reader is at the end of a token, and the next delimiter leaves it there.
* `Lexer.foldlM_spell` — the reader's step lemma for a whole token.
* `Token.read?_write` — tokens laid out as text read back as themselves.
-/

/-! ### What can be read -/

namespace TextUnit

/-- A byte below the blank has to be escaped, so it stands for itself only if it has a letter. -/
def Readable : TextUnit → Prop
  | byte value => value < 0x20 → toEscape? value ≠ none
  | utf16 _ => True

/-- Every byte of a text is written in a readable way. -/
theorem readable_ofByte (value : UInt8) : (ofByte value).Readable := by
  unfold ofByte
  split
  · trivial
  · rename_i h
    intro hlow hnone
    exact h ⟨hlow, hnone⟩

/-- A text is written with readable units. -/
theorem readable_ofText (s : String) : ∀ u ∈ ofText s, u.Readable := by
  intro u hu
  simp only [ofText, List.mem_map] at hu
  obtain ⟨value, _, rfl⟩ := hu
  exact readable_ofByte value

/-- A letter after a backslash gives back the byte it was chosen for, and is never the one that
    announces digits. -/
theorem ofEscape?_of_toEscape? {value letter : UInt8} (h : toEscape? value = some letter) :
    ofEscape? letter = some value ∧ letter ≠ 'u'.toUInt8 := by
  unfold toEscape? at h
  split at h
  · rename_i hv
    obtain rfl : value = letter := by simpa using h
    rcases hv with rfl | rfl <;> decide
  repeat'
    split at h
    · subst value
      obtain rfl := Option.some.inj h
      decide
  simp at h

end TextUnit

/-- The phase that a literal ends in, if it is the beginning of a number. -/
def NumberPhase.ofLiteral? : Bytes → Option NumberPhase
  | [] => none
  | b :: rest => do rest.foldlM NumberPhase.next? (← NumberPhase.first? b)

namespace Token

/-- A token that can occur in a JSON text. -/
def Readable : Token → Prop
  | number literal => ∃ phase, NumberPhase.ofLiteral? literal = some phase ∧ phase.isComplete
  | text units => ∀ u ∈ units, u.Readable
  | _ => True

/-- Is the token a punctuation mark? -/
def isPunctuation : Token → Bool
  | openArray | closeArray | openObject | closeObject | comma | colon => true
  | null | bool _ | number _ | text _ => false

/-- A byte that ends every word and every number: a blank or a punctuation mark. -/
def isDelimiter (b : UInt8) : Bool := isBlank b || (ofPunctuation? b).isSome

theorem isDelimiter_of_isBlank {b : UInt8} (h : isBlank b = true) : isDelimiter b = true := by
  simp [isDelimiter, h]

/-- The bytes that delimit, one by one. -/
theorem eq_of_isDelimiter {b : UInt8} (h : isDelimiter b = true) :
    b ∈ ([32, 9, 10, 13, 91, 93, 123, 125, 44, 58] : Bytes) := by
  simp only [isDelimiter, isBlank, Bool.or_eq_true, beq_iff_eq] at h
  rcases h with h | h
  · rcases h with ((rfl | rfl) | rfl) | rfl <;> decide
  · unfold ofPunctuation? at h
    repeat'
      split at h
      · subst b; decide
    simp at h

/-- A punctuation mark is spelled as the one byte that it is read from. -/
theorem spell_of_isPunctuation {t : Token} (h : t.isPunctuation = true) :
    ∃ b, t.spell = [b] ∧ ofPunctuation? b = some t := by
  cases t with
  | openArray => exact ⟨_, rfl, by decide⟩
  | closeArray => exact ⟨_, rfl, by decide⟩
  | openObject => exact ⟨_, rfl, by decide⟩
  | closeObject => exact ⟨_, rfl, by decide⟩
  | comma => exact ⟨_, rfl, by decide⟩
  | colon => exact ⟨_, rfl, by decide⟩
  | null => simp [isPunctuation] at h
  | bool _ => simp [isPunctuation] at h
  | number _ => simp [isPunctuation] at h
  | text _ => simp [isPunctuation] at h

end Token

/-! ### Reading one token -/

namespace Lexer

/-- The reader has read these tokens, last first, and a delimiter that comes next belongs to none
    of them. -/
structure Settled (lexer : Lexer) (tokens : List Token) : Prop where
  /-- The tokens may end here. -/
  settle : lexer.settle? = some tokens
  /-- A delimiter is read as the start of something new. -/
  leave : ∀ b, Token.isDelimiter b = true → lexer.step b = enter tokens b

theorem settled_between (tokens : List Token) : Settled ⟨tokens, .between⟩ tokens where
  settle := rfl
  leave _ _ := rfl

theorem enter_blank (tokens : List Token) {b : UInt8} (h : Token.isBlank b = true) :
    enter tokens b = some ⟨tokens, .between⟩ := by
  simp [enter, h]

theorem enter_quote (tokens : List Token) :
    enter tokens '"'.toUInt8 = some ⟨tokens, .text []⟩ := by
  rw [enter, if_neg (by decide), if_pos rfl]

theorem enter_punctuation (tokens : List Token) {b : UInt8} {t : Token}
    (h : Token.ofPunctuation? b = some t) : enter tokens b = some ⟨t :: tokens, .between⟩ := by
  have hb := Token.eq_of_isDelimiter (b := b) (by simp [Token.isDelimiter, h])
  simp only [List.mem_cons, List.not_mem_nil, or_false] at hb
  -- Of the ten delimiters four are blanks, which are no punctuation marks.
  rcases hb with rfl | rfl | rfl | rfl | rfl | rfl | rfl | rfl | rfl | rfl
  · simp [show Token.ofPunctuation? 32 = none by decide] at h
  · simp [show Token.ofPunctuation? 9 = none by decide] at h
  · simp [show Token.ofPunctuation? 10 = none by decide] at h
  · simp [show Token.ofPunctuation? 13 = none by decide] at h
  all_goals
    unfold enter
    rw [if_neg (by decide), if_neg (by decide), if_neg (by decide), h]

/-- A byte that starts a number starts nothing else. -/
theorem enter_number (tokens : List Token) {b : UInt8} {phase : NumberPhase}
    (h : NumberPhase.first? b = some phase) :
    enter tokens b = some ⟨tokens, .number phase [b]⟩ := by
  -- The sign and the ten digits start numbers, and nothing else does.
  have hb : b ∈ ([45, 48, 49, 50, 51, 52, 53, 54, 55, 56, 57] : Bytes) := by
    unfold NumberPhase.first? at h
    split at h
    · subst b; decide
    split at h
    · subst b; decide
    split at h
    · rename_i hdigit
      simp only [isDigit, Bool.and_eq_true, decide_eq_true_eq] at hdigit
      have hlow : 48 ≤ b.toNat := hdigit.1
      have hhigh : b.toNat ≤ 57 := hdigit.2
      obtain ⟨n, hn⟩ : ∃ n : Fin 10, b = UInt8.ofNat (48 + n.val) :=
        ⟨⟨b.toNat - 48, by omega⟩, by simp [show 48 + (b.toNat - 48) = b.toNat by omega]⟩
      subst hn
      revert n
      decide
    · simp at h
  simp only [List.mem_cons, List.not_mem_nil, or_false] at hb
  rcases hb with rfl | rfl | rfl | rfl | rfl | rfl | rfl | rfl | rfl | rfl | rfl
  all_goals
    unfold enter
    rw [if_neg (by decide), if_neg (by decide), if_neg (by decide), h,
      show Token.ofPunctuation? _ = none by decide]

/-! ### Quoted texts -/

/-- The digits of a UTF-16 unit are read one by one. -/
theorem step_hexByte (tokens : List Token) (units : List TextUnit) (left value n : Nat) :
    step ⟨tokens, .digits units left value⟩ (TextUnit.hexByte n) =
      if left ≤ 1 then some ⟨tokens, .text (.utf16 (UInt16.ofNat (value * 16 + n % 16)) :: units)⟩
      else some ⟨tokens, .digits units (left - 1) (value * 16 + n % 16)⟩ := by
  have hdigit : ∀ m : Fin 16,
      Hex.value? (Char.ofUInt8 (Hex.digit .lower m.val).toUInt8) = some m.val := by decide
  have hn : Hex.value? (Char.ofUInt8 (TextUnit.hexByte n)) = some (n % 16) :=
    hdigit ⟨n % 16, Nat.mod_lt _ (by decide)⟩
  simp only [step, hn]
  rfl

/-- A readable unit is read as itself. -/
theorem foldlM_spell_unit (tokens : List Token) (units : List TextUnit) {u : TextUnit}
    (hu : u.Readable) :
    u.spell.foldlM step ⟨tokens, .text units⟩ = some ⟨tokens, .text (u :: units)⟩ := by
  cases u with
  | byte value =>
    cases hletter : TextUnit.toEscape? value with
    | some letter =>
      obtain ⟨hback, hne⟩ := TextUnit.ofEscape?_of_toEscape? hletter
      have hslash : step ⟨tokens, .text units⟩ '\\'.toUInt8 = some ⟨tokens, .escape units⟩ := by
        simp [step, show ('\\'.toUInt8 = '"'.toUInt8) = False by decide]
      have hread : step ⟨tokens, .escape units⟩ letter =
          some ⟨tokens, .text (.byte value :: units)⟩ := by
        simp [step, hne, hback]
      simp [TextUnit.spell, hletter, hslash, hread]
    | none =>
      have hlow : ¬value < 0x20 := fun h => hu h hletter
      have hquote : value ≠ '"'.toUInt8 := by
        rintro rfl
        exact absurd hletter (by decide)
      have hslash : value ≠ '\\'.toUInt8 := by
        rintro rfl
        exact absurd hletter (by decide)
      simp [TextUnit.spell, hletter, step, hlow, hquote, hslash]
  | utf16 value =>
    have hslash : step ⟨tokens, .text units⟩ '\\'.toUInt8 = some ⟨tokens, .escape units⟩ := by
      simp [step, show ('\\'.toUInt8 = '"'.toUInt8) = False by decide]
    have hu' : step ⟨tokens, .escape units⟩ 'u'.toUInt8 = some ⟨tokens, .digits units 4 0⟩ := by
      simp [step]
    -- The four digits, from the highest on, put the value together again.
    have hvalue : UInt16.ofNat ((((0 * 16 + value.toNat / 4096 % 16) * 16 + value.toNat / 256 % 16)
        * 16 + value.toNat / 16 % 16) * 16 + value.toNat % 16) = value := by
      have hlt : value.toNat < 65536 := value.toNat_lt
      rw [show (((0 * 16 + value.toNat / 4096 % 16) * 16 + value.toNat / 256 % 16) * 16 +
        value.toNat / 16 % 16) * 16 + value.toNat % 16 = value.toNat by omega]
      simp
    show List.foldlM step _ ['\\'.toUInt8, 'u'.toUInt8, TextUnit.hexByte _, TextUnit.hexByte _,
      TextUnit.hexByte _, TextUnit.hexByte _] = _
    rw [List.foldlM_cons, hslash, Option.bind_eq_bind, Option.bind_some,
      List.foldlM_cons, hu', Option.bind_eq_bind, Option.bind_some,
      List.foldlM_cons, step_hexByte, if_neg (by decide), Option.bind_eq_bind, Option.bind_some,
      List.foldlM_cons, step_hexByte, if_neg (by decide), Option.bind_eq_bind, Option.bind_some,
      List.foldlM_cons, step_hexByte, if_neg (by decide), Option.bind_eq_bind, Option.bind_some,
      List.foldlM_cons, step_hexByte, if_pos (by decide), hvalue]
    rfl

/-- Readable units are read as themselves. -/
theorem foldlM_flatMap_spell (tokens : List Token) (done : List TextUnit) {units : List TextUnit}
    (h : ∀ u ∈ units, u.Readable) :
    (units.flatMap TextUnit.spell).foldlM step ⟨tokens, .text done⟩ =
      some ⟨tokens, .text (units.reverse ++ done)⟩ := by
  -- The units that have been read are kept last first, so what is done grows at its front.
  induction units generalizing done with
  | nil => rfl
  | cons u units ih =>
    have hu : u.Readable := h u (by simp)
    have hrest : ∀ u ∈ units, u.Readable := fun u hmem => h u (by simp [hmem])
    rw [List.flatMap_cons, List.foldlM_append, foldlM_spell_unit tokens done hu]
    simp [ih (u :: done) hrest]

/-- The bytes of a readable text give the text. -/
theorem foldlM_spell_text (tokens : List Token) {units : List TextUnit}
    (h : ∀ u ∈ units, u.Readable) :
    (Token.text units).spell.foldlM step ⟨tokens, .between⟩ =
      some ⟨.text units :: tokens, .between⟩ := by
  have hopen : step ⟨tokens, .between⟩ '"'.toUInt8 = some ⟨tokens, .text []⟩ := enter_quote tokens
  have hclose : step ⟨tokens, .text units.reverse⟩ '"'.toUInt8 =
      some ⟨.text units :: tokens, .between⟩ := by
    simp [step]
  rw [Token.spell, List.foldlM_cons, hopen, Option.bind_eq_bind, Option.bind_some,
    List.foldlM_append, foldlM_flatMap_spell tokens [] h, List.append_nil, Option.bind_eq_bind,
    Option.bind_some, List.foldlM_cons, hclose]
  rfl

/-! ### Numbers and words -/

/-- A delimiter belongs to no number. -/
theorem next?_delimiter (phase : NumberPhase) {b : UInt8} (h : Token.isDelimiter b = true) :
    phase.next? b = none := by
  have hb := Token.eq_of_isDelimiter h
  simp only [List.mem_cons, List.not_mem_nil, or_false] at hb
  -- No phase of a number has a place for any of the ten.
  rcases hb with rfl | rfl | rfl | rfl | rfl | rfl | rfl | rfl | rfl | rfl
  all_goals cases phase <;> decide

/-- The bytes that go on with a number are collected. -/
theorem foldlM_number (tokens : List Token) {phase final : NumberPhase} (done : Bytes)
    {rest : Bytes} (h : rest.foldlM NumberPhase.next? phase = some final) :
    rest.foldlM step ⟨tokens, .number phase done⟩ =
      some ⟨tokens, .number final (rest.reverse ++ done)⟩ := by
  -- The phase changes with each byte, so the induction is for all of them at once.
  induction rest generalizing phase done with
  | nil =>
    obtain rfl := Option.some.inj h
    rfl
  | cons b rest ih =>
    rw [List.foldlM_cons, Option.bind_eq_bind, Option.bind_eq_some_iff] at h
    obtain ⟨next, hnext, hrest⟩ := h
    have hstep : step ⟨tokens, .number phase done⟩ b =
        some ⟨tokens, .number next (b :: done)⟩ := by
      simp [step, hnext]
    rw [List.foldlM_cons, hstep, Option.bind_eq_bind, Option.bind_some, ih (b :: done) hrest]
    simp

/-- After a complete number the reader is settled. -/
theorem settled_number (tokens : List Token) {phase : NumberPhase} (literal : Bytes)
    (h : phase.isComplete = true) :
    Settled ⟨tokens, .number phase literal.reverse⟩ (.number literal :: tokens) where
  settle := by simp [settle?, h]
  leave b hb := by
    simp [step, next?_delimiter phase hb, Lexer.leave, settle?, h]

/-- After a word the reader is settled. -/
theorem settled_word (tokens : List Token) {letters : Bytes} {t : Token}
    (h : Token.ofWord? letters = some t) :
    Settled ⟨tokens, .word letters.reverse⟩ (t :: tokens) where
  settle := by simp [settle?, h]
  leave b hb := by
    have hletter : ¬('a'.toUInt8 ≤ b ∧ b ≤ 'z'.toUInt8) := by
      have hmem := Token.eq_of_isDelimiter hb
      simp only [List.mem_cons, List.not_mem_nil, or_false] at hmem
      rcases hmem with rfl | rfl | rfl | rfl | rfl | rfl | rfl | rfl | rfl | rfl <;> decide
    simp [step, hletter, Lexer.leave, settle?, h]

/-! ### A whole token -/

/-- A settled reader takes a punctuation mark at once. -/
theorem foldlM_spell_punctuation {lexer : Lexer} {tokens : List Token} (hl : Settled lexer tokens)
    {t : Token} (ht : t.isPunctuation = true) :
    t.spell.foldlM step lexer = some ⟨t :: tokens, .between⟩ := by
  obtain ⟨b, hspell, hread⟩ := Token.spell_of_isPunctuation ht
  have hb : Token.isDelimiter b = true := by simp [Token.isDelimiter, hread]
  rw [hspell, List.foldlM_cons, hl.leave b hb, enter_punctuation tokens hread]
  rfl

/-- A readable token is read as itself; only after a word or a number is the reader not yet back
    between the tokens. -/
theorem foldlM_spell (tokens : List Token) {t : Token} (ht : t.Readable) :
    ∃ lexer, t.spell.foldlM step ⟨tokens, .between⟩ = some lexer ∧ Settled lexer (t :: tokens) ∧
      (t.isPunctuation = true → lexer = ⟨t :: tokens, .between⟩) := by
  cases t with
  | null =>
    refine ⟨⟨tokens, .word (Bytes.ofText "null").reverse⟩, rfl, settled_word tokens rfl, ?_⟩
    simp [Token.isPunctuation]
  | bool value =>
    cases value with
    | true =>
      refine ⟨⟨tokens, .word (Bytes.ofText "true").reverse⟩, rfl, settled_word tokens rfl, ?_⟩
      simp [Token.isPunctuation]
    | false =>
      refine ⟨⟨tokens, .word (Bytes.ofText "false").reverse⟩, rfl, settled_word tokens rfl, ?_⟩
      simp [Token.isPunctuation]
  | number literal =>
    obtain ⟨final, hliteral, hcomplete⟩ := ht
    cases literal with
    | nil => simp [NumberPhase.ofLiteral?] at hliteral
    | cons b rest =>
      simp only [NumberPhase.ofLiteral?, Option.bind_eq_bind, Option.bind_eq_some_iff] at hliteral
      obtain ⟨first, hfirst, hrest⟩ := hliteral
      -- The first byte opens the number, and the others go on with it.
      have hopen : step ⟨tokens, .between⟩ b = some ⟨tokens, .number first [b]⟩ :=
        enter_number tokens hfirst
      refine ⟨⟨tokens, .number final (b :: rest).reverse⟩, ?_,
        settled_number tokens _ hcomplete, ?_⟩
      · rw [Token.spell, List.foldlM_cons, hopen, Option.bind_eq_bind, Option.bind_some,
          foldlM_number tokens [b] hrest, List.reverse_cons]
      · simp [Token.isPunctuation]
  | text units =>
    exact ⟨_, foldlM_spell_text tokens ht, settled_between _, fun _ => rfl⟩
  | openArray | closeArray | openObject | closeObject | comma | colon =>
    exact ⟨_, foldlM_spell_punctuation (settled_between tokens) rfl, settled_between _,
      fun _ => rfl⟩

end Lexer

/-! ### Tokens laid out -/

namespace Token

/-- Two tokens can stand side by side only if one of them is a punctuation mark. -/
def Parted (before after : Token) : Prop := before.isPunctuation = true ∨ after.isPunctuation = true

end Token

namespace Layout

/-- Tokens as text, at a depth. -/
def writeFrom (layout : Layout) (depth : Nat) : List Token → Bytes
  | [] => []
  | [token] => token.spell
  | token :: after :: rest =>
    token.spell ++ (layout.gap (deepen depth token) token after ++
      writeFrom layout (deepen depth token) (after :: rest))

theorem writeOnto_flatten (layout : Layout) (done : List Bytes) (depth : Nat)
    (tokens : List Token) :
    (layout.writeOnto done depth tokens).flatten =
      done.reverse.flatten ++ layout.writeFrom depth tokens := by
  induction tokens generalizing done depth with
  | nil => simp [writeOnto, writeFrom]
  | cons token rest ih =>
    cases rest with
    | nil => simp [writeOnto, writeFrom]
    | cons after rest =>
      rw [writeOnto, ih, writeFrom]
      simp

/-- The text of tokens, written front to back. -/
theorem write_eq_writeFrom (layout : Layout) (tokens : List Token) :
    layout.write tokens = layout.writeFrom 0 tokens := by
  simp [write, writeOnto_flatten]

/-- Only blanks stand between tokens. -/
theorem isBlank_of_mem_gap (layout : Layout) (depth : Nat) (before after : Token) :
    ∀ b ∈ layout.gap depth before after, Token.isBlank b = true := by
  have hline : ∀ width depth, ∀ b ∈ newLine width depth, Token.isBlank b = true := by
    intro width depth b hb
    simp only [newLine, List.mem_cons, List.mem_replicate] at hb
    rcases hb with rfl | ⟨_, rfl⟩ <;> decide
  intro b hb
  unfold gap at hb
  split at hb
  · simp at hb
  · -- Nothing, a line of its own or a single blank, depending on the two tokens.
    split at hb
    · simp at hb
    · simp at hb
    · exact hline _ _ b hb
    · exact hline _ _ b hb
    · exact hline _ _ b hb
    · exact hline _ _ b hb
    · exact hline _ _ b hb
    · obtain rfl := List.mem_singleton.mp hb
      decide
    · simp at hb

end Layout

namespace Lexer

/-- Blanks bring a settled reader back between the tokens. -/
theorem foldlM_blanks {lexer : Lexer} {tokens : List Token} (hl : Settled lexer tokens)
    {blanks : Bytes} (hne : blanks ≠ []) (h : ∀ b ∈ blanks, Token.isBlank b = true) :
    blanks.foldlM step lexer = some ⟨tokens, .between⟩ := by
  induction blanks generalizing lexer with
  | nil => exact absurd rfl hne
  | cons b rest ih =>
    have hb : Token.isBlank b = true := h b (by simp)
    have hrest : ∀ b ∈ rest, Token.isBlank b = true := fun b hmem => h b (by simp [hmem])
    rw [List.foldlM_cons, hl.leave b (Token.isDelimiter_of_isBlank hb), enter_blank tokens hb,
      Option.bind_eq_bind, Option.bind_some]
    by_cases hnil : rest = []
    · subst hnil
      rfl
    · exact ih (settled_between tokens) hnil hrest

/-- **Tokens are read as they were written.**  A reader that is between the tokens, or is settled
    before a punctuation mark, reads exactly the tokens laid out. -/
theorem foldlM_writeFrom (layout : Layout) (depth : Nat) {lexer : Lexer} {done tokens : List Token}
    (hl : Settled lexer done)
    (hstart : lexer = ⟨done, .between⟩ ∨ ∀ t ∈ tokens.head?, t.isPunctuation = true)
    (hread : ∀ t ∈ tokens, t.Readable) (hparted : tokens.IsChain Token.Parted) :
    ∃ lexer', (layout.writeFrom depth tokens).foldlM step lexer = some lexer' ∧
      Settled lexer' (tokens.reverse ++ done) := by
  induction tokens generalizing depth lexer done with
  | nil => exact ⟨lexer, rfl, hl⟩
  | cons token rest ih =>
    have htoken : token.Readable := hread token (by simp)
    -- However the reader got here, it reads this token and is settled after it.
    obtain ⟨next, hnext, hsettled, hback⟩ : ∃ next, token.spell.foldlM step lexer = some next ∧
        Settled next (token :: done) ∧
        (token.isPunctuation = true → next = ⟨token :: done, .between⟩) := by
      rcases hstart with rfl | hpunct
      · exact foldlM_spell done htoken
      · have hp : token.isPunctuation = true := hpunct token (by simp)
        exact ⟨_, foldlM_spell_punctuation hl hp, settled_between _, fun _ => rfl⟩
    cases rest with
    | nil =>
      refine ⟨next, ?_, ?_⟩
      · rw [Layout.writeFrom]; exact hnext
      · simpa using hsettled
    | cons after rest =>
      have hread' : ∀ t ∈ after :: rest, t.Readable := fun t ht => hread t (by simp [ht])
      obtain ⟨hpart, hchain⟩ := List.isChain_cons_cons.mp hparted
      rw [Layout.writeFrom, List.foldlM_append, hnext, Option.bind_eq_bind, Option.bind_some,
        List.foldlM_append]
      by_cases hgap : layout.gap (Layout.deepen depth token) token after = []
      · -- Nothing stands between the two, so one of them is a punctuation mark.
        rw [hgap, List.foldlM_nil, Option.bind_eq_bind, Option.pure_def, Option.bind_some]
        have hstart' : next = ⟨token :: done, .between⟩ ∨
            ∀ t ∈ (after :: rest).head?, t.isPunctuation = true := by
          rcases hpart with hp | hp
          · exact .inl (hback hp)
          · exact .inr (by simpa using hp)
        obtain ⟨lexer', hrun, hs⟩ := ih (Layout.deepen depth token) hsettled hstart' hread' hchain
        exact ⟨lexer', hrun, by simpa using hs⟩
      · rw [foldlM_blanks hsettled hgap (Layout.isBlank_of_mem_gap _ _ _ _), Option.bind_eq_bind,
          Option.bind_some]
        obtain ⟨lexer', hrun, hs⟩ :=
          ih (Layout.deepen depth token) (settled_between _) (.inl rfl) hread' hchain
        exact ⟨lexer', hrun, by simpa using hs⟩

end Lexer

/-- Tokens that are laid out as text read back. -/
theorem Token.read?_write (layout : Layout) {tokens : List Token}
    (hread : ∀ t ∈ tokens, t.Readable) (hparted : tokens.IsChain Token.Parted) :
    Token.read? (layout.write tokens) = some tokens := by
  obtain ⟨lexer, hrun, hsettled⟩ := Lexer.foldlM_writeFrom layout 0 (Lexer.settled_between [])
    (.inl rfl) hread hparted
  rw [Layout.write_eq_writeFrom, Token.read?]
  simp [Lexer.start, hrun, hsettled.settle]

end Lockbox.Json
