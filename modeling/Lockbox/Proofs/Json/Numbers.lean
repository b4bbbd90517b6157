import Lockbox.Proofs.Json.Fields

namespace Lockbox.Json

/-!
# Number literals

The literals of a JSON text, described by their parts: an optional minus sign, digits without a
needless zero in front, and optionally a point with digits and a power of ten.

* `IsNumber` — such a literal.
* `readable_number_iff` — the reader takes exactly these literals.
* `intOfLiteral?_eq_some_iff` — digits after an optional minus sign are a whole number, unless they
  are minus zero.
-/

/-! ### The parts of a literal -/

/-- Decimal digits, at least one. -/
def IsDigits (b : Bytes) : Prop := b ≠ [] ∧ b.all isDigit = true

/-- Digits before the point: a zero stands alone. -/
def IsWhole (b : Bytes) : Prop := b = ['0'.toUInt8] ∨ IsDigits b ∧ b.head? ≠ some '0'.toUInt8

/-- A minus sign, or nothing. -/
def IsMinus (b : Bytes) : Prop := b = [] ∨ b = ['-'.toUInt8]

/-- A sign, or nothing. -/
def IsSign (b : Bytes) : Prop := b = [] ∨ b = ['+'.toUInt8] ∨ b = ['-'.toUInt8]

/-- Digits before the point, with their sign. -/
def IsSigned (b : Bytes) : Prop := ∃ minus whole, IsMinus minus ∧ IsWhole whole ∧ b = minus ++ whole

/-- A point with digits after it, or nothing. -/
def IsFraction (b : Bytes) : Prop := b = [] ∨ ∃ digits, IsDigits digits ∧ b = '.'.toUInt8 :: digits

/-- A literal without its power of ten. -/
def IsMantissa (b : Bytes) : Prop :=
  ∃ signed fraction, IsSigned signed ∧ IsFraction fraction ∧ b = signed ++ fraction

/-- A power of ten, or nothing. -/
def IsPower (b : Bytes) : Prop :=
  b = [] ∨ ∃ letter sign digits, isExponent letter = true ∧ IsSign sign ∧ IsDigits digits ∧
    b = letter :: (sign ++ digits)

/-- The literal of a number. -/
def IsNumber (literal : Bytes) : Prop :=
  ∃ mantissa power, IsMantissa mantissa ∧ IsPower power ∧ literal = mantissa ++ power

/-- A digit is one of ten bytes. -/
theorem eq_of_isDigit {b : UInt8} (h : isDigit b = true) :
    ∃ n : Fin 10, b = UInt8.ofNat (48 + n.val) := by
  simp only [isDigit, Bool.and_eq_true, decide_eq_true_eq] at h
  have hlow : 48 ≤ b.toNat := h.1
  have hhigh : b.toNat ≤ 57 := h.2
  exact ⟨⟨b.toNat - 48, by omega⟩, by simp [show 48 + (b.toNat - 48) = b.toNat by omega]⟩

/-- The letter of a power of ten is small or capital. -/
theorem eq_of_isExponent {b : UInt8} (h : isExponent b = true) :
    b = 'e'.toUInt8 ∨ b = 'E'.toUInt8 := by
  simpa [isExponent] using h

theorem isDigits_singleton {b : UInt8} (h : isDigit b = true) : IsDigits [b] := by
  simp [IsDigits, h]

/-- One more digit. -/
theorem IsDigits.snoc {digits : Bytes} {b : UInt8} (h : IsDigits digits)
    (hb : isDigit b = true) : IsDigits (digits ++ [b]) := by
  refine ⟨by simp, ?_⟩
  rw [List.all_append, h.2, Bool.true_and]
  simp [hb]

/-- Digits before the point are a mantissa, if nothing follows. -/
theorem IsSigned.isMantissa {b : Bytes} (h : IsSigned b) : IsMantissa b :=
  ⟨b, [], h, .inl rfl, (List.append_nil b).symm⟩

/-- A mantissa is a number, if no power of ten follows. -/
theorem IsMantissa.isNumber {b : Bytes} (h : IsMantissa b) : IsNumber b :=
  ⟨b, [], h, .inl rfl, (List.append_nil b).symm⟩

/-! ### What the reader takes -/

namespace NumberPhase

/-- What has been read of a number in each phase. -/
def Reads : NumberPhase → Bytes → Prop
  | sign, b => b = ['-'.toUInt8]
  | zero, b => ∃ minus, IsMinus minus ∧ b = minus ++ ['0'.toUInt8]
  | whole, b => ∃ minus digits, IsMinus minus ∧ IsDigits digits ∧
      digits.head? ≠ some '0'.toUInt8 ∧ b = minus ++ digits
  | point, b => ∃ signed, IsSigned signed ∧ b = signed ++ ['.'.toUInt8]
  | fraction, b => ∃ signed digits, IsSigned signed ∧ IsDigits digits ∧
      b = signed ++ '.'.toUInt8 :: digits
  | exponent, b => ∃ mantissa letter, IsMantissa mantissa ∧ isExponent letter = true ∧
      b = mantissa ++ [letter]
  | exponentSign, b => ∃ mantissa letter sign, IsMantissa mantissa ∧ isExponent letter = true ∧
      IsSign [sign] ∧ b = mantissa ++ [letter, sign]
  | exponentDigits, b => ∃ mantissa letter sign digits, IsMantissa mantissa ∧
      isExponent letter = true ∧ IsSign sign ∧ IsDigits digits ∧
      b = mantissa ++ letter :: (sign ++ digits)

/-- A zero before the point. -/
theorem isSigned_of_reads_zero {b : Bytes} (h : zero.Reads b) : IsSigned b := by
  obtain ⟨minus, hminus, rfl⟩ := h
  exact ⟨minus, _, hminus, .inl rfl, rfl⟩

/-- Other digits before the point. -/
theorem isSigned_of_reads_whole {b : Bytes} (h : whole.Reads b) : IsSigned b := by
  obtain ⟨minus, digits, hminus, hdigits, hhead, rfl⟩ := h
  exact ⟨minus, digits, hminus, .inr ⟨hdigits, hhead⟩, rfl⟩

/-- Digits after the point. -/
theorem isMantissa_of_reads_fraction {b : Bytes} (h : fraction.Reads b) : IsMantissa b := by
  obtain ⟨signed, digits, hsigned, hdigits, rfl⟩ := h
  exact ⟨signed, _, hsigned, .inr ⟨digits, hdigits, rfl⟩, rfl⟩

/-- The first byte is a minus sign or a digit. -/
theorem reads_first {b : UInt8} {phase : NumberPhase} (h : first? b = some phase) :
    phase.Reads [b] := by
  unfold first? at h
  split at h
  · subst b
    obtain rfl := Option.some.inj h
    rfl
  split at h
  · subst b
    obtain rfl := Option.some.inj h
    exact ⟨[], .inl rfl, rfl⟩
  split at h
  · rename_i hzero hdigit
    obtain rfl := Option.some.inj h
    exact ⟨[], [b], .inl rfl, isDigits_singleton hdigit, by simpa using hzero, rfl⟩
  · simp at h

/-- The digits of a whole literal after its sign. -/
theorem reads_sign_next {b : UInt8} {next : NumberPhase} (h : sign.next? b = some next) :
    next.Reads (['-'.toUInt8] ++ [b]) := by
  simp only [next?] at h
  split at h
  · subst b
    obtain rfl := Option.some.inj h
    exact ⟨['-'.toUInt8], .inr rfl, rfl⟩
  split at h
  · rename_i hzero hdigit
    obtain rfl := Option.some.inj h
    exact ⟨['-'.toUInt8], [b], .inr rfl, isDigits_singleton hdigit, by simpa using hzero, rfl⟩
  · simp at h

/-- **Each byte that belongs to a number takes its phase on.** -/
theorem reads_next {phase next : NumberPhase} {read : Bytes} {b : UInt8} (hread : phase.Reads read)
    (h : phase.next? b = some next) : next.Reads (read ++ [b]) := by
  cases phase with
  | sign =>
    obtain rfl : read = ['-'.toUInt8] := hread
    exact reads_sign_next h
  | zero =>
    have hsigned := isSigned_of_reads_zero hread
    simp only [next?] at h
    split at h
    · subst b
      obtain rfl := Option.some.inj h
      exact ⟨read, hsigned, rfl⟩
    split at h
    · rename_i hletter
      obtain rfl := Option.some.inj h
      exact ⟨read, b, hsigned.isMantissa, hletter, rfl⟩
    · simp at h
  | whole =>
    have hsigned := isSigned_of_reads_whole hread
    simp only [next?] at h
    split at h
    · rename_i hdigit
      obtain rfl := Option.some.inj h
      obtain ⟨minus, digits, hminus, hdigits, hhead, rfl⟩ := hread
      refine ⟨minus, digits ++ [b], hminus, hdigits.snoc hdigit, ?_, List.append_assoc _ _ _⟩
      rwa [List.head?_append_of_ne_nil _ hdigits.1]
    split at h
    · subst b
      obtain rfl := Option.some.inj h
      exact ⟨read, hsigned, rfl⟩
    split at h
    · rename_i hletter
      obtain rfl := Option.some.inj h
      exact ⟨read, b, hsigned.isMantissa, hletter, rfl⟩
    · simp at h
  | point =>
    simp only [next?] at h
    split at h
    · rename_i hdigit
      obtain rfl := Option.some.inj h
      obtain ⟨signed, hsigned, rfl⟩ := hread
      exact ⟨signed, [b], hsigned, isDigits_singleton hdigit, by simp⟩
    · simp at h
  | fraction =>
    have hmantissa := isMantissa_of_reads_fraction hread
    simp only [next?] at h
    split at h
    · rename_i hdigit
      obtain rfl := Option.some.inj h
      obtain ⟨signed, digits, hsigned, hdigits, rfl⟩ := hread
      exact ⟨signed, digits ++ [b], hsigned, hdigits.snoc hdigit, by simp⟩
    split at h
    · rename_i hletter
      obtain rfl := Option.some.inj h
      exact ⟨read, b, hmantissa, hletter, rfl⟩
    · simp at h
  | exponent =>
    obtain ⟨mantissa, letter, hmantissa, hletter, rfl⟩ := hread
    simp only [next?] at h
    split at h
    · rename_i hsign
      obtain rfl := Option.some.inj h
      exact ⟨mantissa, letter, b, hmantissa, hletter, .inr (by simpa using hsign), by simp⟩
    split at h
    · rename_i hdigit
      obtain rfl := Option.some.inj h
      exact ⟨mantissa, letter, [], [b], hmantissa, hletter, .inl rfl, isDigits_singleton hdigit,
        by simp⟩
    · simp at h
  | exponentSign =>
    simp only [next?] at h
    split at h
    · rename_i hdigit
      obtain rfl := Option.some.inj h
      obtain ⟨mantissa, letter, sign, hmantissa, hletter, hsign, rfl⟩ := hread
      exact ⟨mantissa, letter, [sign], [b], hmantissa, hletter, hsign, isDigits_singleton hdigit,
        by simp⟩
    · simp at h
  | exponentDigits =>
    simp only [next?] at h
    split at h
    · rename_i hdigit
      obtain rfl := Option.some.inj h
      obtain ⟨mantissa, letter, sign, digits, hmantissa, hletter, hsign, hdigits, rfl⟩ := hread
      exact ⟨mantissa, letter, sign, digits ++ [b], hmantissa, hletter, hsign, hdigits.snoc hdigit,
        by simp⟩
    · simp at h

/-- What has been read when a run of bytes has taken a phase on. -/
theorem reads_foldlM {phase final : NumberPhase} {read rest : Bytes} (hread : phase.Reads read)
    (h : rest.foldlM next? phase = some final) : final.Reads (read ++ rest) := by
  -- Each byte moves from what is to come to what has been read.
  induction rest generalizing phase read with
  | nil =>
    obtain rfl := Option.some.inj h
    rwa [List.append_nil]
  | cons b rest ih =>
    rw [List.foldlM_cons, Option.bind_eq_bind, Option.bind_eq_some_iff] at h
    obtain ⟨next, hnext, hrest⟩ := h
    have hfinal := ih (reads_next hread hnext) hrest
    rwa [List.append_assoc, List.singleton_append] at hfinal

/-- Where a number may end, one has been read. -/
theorem isNumber_of_reads {phase : NumberPhase} {read : Bytes} (hread : phase.Reads read)
    (h : phase.isComplete = true) : IsNumber read := by
  cases phase with
  | zero => exact (isSigned_of_reads_zero hread).isMantissa.isNumber
  | whole => exact (isSigned_of_reads_whole hread).isMantissa.isNumber
  | fraction => exact (isMantissa_of_reads_fraction hread).isNumber
  | exponentDigits =>
    obtain ⟨mantissa, letter, sign, digits, hmantissa, hletter, hsign, hdigits, rfl⟩ := hread
    exact ⟨mantissa, _, hmantissa, .inr ⟨letter, sign, digits, hletter, hsign, hdigits, rfl⟩, rfl⟩
  | sign | point | exponent | exponentSign => simp [isComplete] at h

/-! ### What the reader does with a number -/

/-- A phase that digits do not end goes on over all of them. -/
theorem foldlM_digits {phase : NumberPhase}
    (h : ∀ n : Fin 10, phase.next? (UInt8.ofNat (48 + n.val)) = some phase) {digits : Bytes}
    (hdigits : digits.all isDigit = true) : digits.foldlM next? phase = some phase := by
  induction digits with
  | nil => rfl
  | cons b digits ih =>
    rw [List.all_cons, Bool.and_eq_true] at hdigits
    obtain ⟨n, rfl⟩ := eq_of_isDigit hdigits.1
    rw [List.foldlM_cons, h n, Option.bind_eq_bind, Option.bind_some, ih hdigits.2]

/-- A phase that the first digit ends, and the phase of the digits after it. -/
theorem foldlM_isDigits {phase next : NumberPhase}
    (hfirst : ∀ n : Fin 10, phase.next? (UInt8.ofNat (48 + n.val)) = some next)
    (hrest : ∀ n : Fin 10, next.next? (UInt8.ofNat (48 + n.val)) = some next) {digits : Bytes}
    (hdigits : IsDigits digits) : digits.foldlM next? phase = some next := by
  obtain ⟨hne, hall⟩ := hdigits
  obtain ⟨b, rest, rfl⟩ := List.exists_cons_of_ne_nil hne
  rw [List.all_cons, Bool.and_eq_true] at hall
  obtain ⟨n, rfl⟩ := eq_of_isDigit hall.1
  rw [List.foldlM_cons, hfirst n, Option.bind_eq_bind, Option.bind_some,
    foldlM_digits hrest hall.2]

/-- A literal goes on with the bytes that take its phase on. -/
theorem ofLiteral?_append {literal rest : Bytes} {phase : NumberPhase}
    (h : ofLiteral? literal = some phase) :
    ofLiteral? (literal ++ rest) = rest.foldlM next? phase := by
  cases literal with
  | nil => simp [ofLiteral?] at h
  | cons b literal =>
    simp only [ofLiteral?, Option.bind_eq_bind, Option.bind_eq_some_iff] at h
    obtain ⟨start, hstart, hliteral⟩ := h
    simp [ofLiteral?, hstart, List.foldlM_append, hliteral]

/-- Digits before the point end in one of two phases. -/
theorem ofLiteral?_signed {b : Bytes} (h : IsSigned b) :
    ofLiteral? b = some .zero ∨ ofLiteral? b = some .whole := by
  obtain ⟨minus, whole, hminus, hwhole, rfl⟩ := h
  -- With a minus sign it is the phase after the sign that the first digit ends.
  have hdigit : ∀ n : Fin 10, UInt8.ofNat (48 + n.val) ≠ '0'.toUInt8 →
      first? (UInt8.ofNat (48 + n.val)) = some .whole ∧
        sign.next? (UInt8.ofNat (48 + n.val)) = some .whole := by decide
  rcases hwhole with rfl | ⟨⟨hne, hall⟩, hhead⟩
  · left
    rcases hminus with rfl | rfl <;> rfl
  · right
    obtain ⟨d, digits, rfl⟩ := List.exists_cons_of_ne_nil hne
    rw [List.all_cons, Bool.and_eq_true] at hall
    obtain ⟨n, rfl⟩ := eq_of_isDigit hall.1
    obtain ⟨hfirst, hnext⟩ := hdigit n (by simpa using hhead)
    have hdigits : digits.foldlM next? .whole = some .whole := foldlM_digits (by decide) hall.2
    rcases hminus with rfl | rfl
    · rw [List.nil_append, ofLiteral?, hfirst, Option.bind_eq_bind, Option.bind_some, hdigits]
    · rw [List.singleton_append, ofLiteral?, show first? '-'.toUInt8 = some .sign by decide,
        Option.bind_eq_bind, Option.bind_some, List.foldlM_cons, hnext, Option.bind_eq_bind,
        Option.bind_some, hdigits]

/-- A mantissa ends in one of three phases. -/
theorem ofLiteral?_mantissa {b : Bytes} (h : IsMantissa b) :
    ofLiteral? b = some .zero ∨ ofLiteral? b = some .whole ∨ ofLiteral? b = some .fraction := by
  obtain ⟨signed, fraction, hsigned, hfraction, rfl⟩ := h
  have hphase := ofLiteral?_signed hsigned
  rcases hfraction with rfl | ⟨digits, hdigits, rfl⟩
  · rw [List.append_nil]
    exact hphase.imp_right .inl
  · right; right
    have hpoint : digits.foldlM next? .point = some .fraction :=
      foldlM_isDigits (by decide) (by decide) hdigits
    rcases hphase with hphase | hphase
    · rw [ofLiteral?_append hphase]
      exact hpoint
    · rw [ofLiteral?_append hphase]
      exact hpoint

/-- Three phases go on with a power of ten. -/
theorem foldlM_power {phase : NumberPhase} (h : phase = .zero ∨ phase = .whole ∨ phase = .fraction)
    {power : Bytes} (hpower : IsPower power) :
    ∃ final, power.foldlM next? phase = some final ∧ final.isComplete = true := by
  rcases hpower with rfl | ⟨letter, sign, digits, hletter, hsign, hdigits, rfl⟩
  · refine ⟨phase, rfl, ?_⟩
    rcases h with rfl | rfl | rfl <;> rfl
  · refine ⟨.exponentDigits, ?_, rfl⟩
    have hexponent : phase.next? letter = some .exponent := by
      rcases eq_of_isExponent hletter with rfl | rfl <;>
        rcases h with rfl | rfl | rfl <;> decide
    have hsigned : digits.foldlM next? .exponentSign = some .exponentDigits :=
      foldlM_isDigits (by decide) (by decide) hdigits
    rw [List.foldlM_cons, hexponent, Option.bind_eq_bind, Option.bind_some, List.foldlM_append]
    rcases hsign with rfl | rfl | rfl
    · exact foldlM_isDigits (by decide) (by decide) hdigits
    · exact hsigned
    · exact hsigned

end NumberPhase

/-- **The reader takes exactly the literals of numbers.** -/
theorem readable_number_iff {literal : Bytes} :
    (Token.number literal).Readable ↔ IsNumber literal := by
  constructor
  · rintro ⟨final, hfinal, hcomplete⟩
    cases literal with
    | nil => simp [NumberPhase.ofLiteral?] at hfinal
    | cons b rest =>
      simp only [NumberPhase.ofLiteral?, Option.bind_eq_bind, Option.bind_eq_some_iff] at hfinal
      obtain ⟨first, hfirst, hrest⟩ := hfinal
      exact NumberPhase.isNumber_of_reads
        (NumberPhase.reads_foldlM (NumberPhase.reads_first hfirst) hrest) hcomplete
  · rintro ⟨mantissa, power, hmantissa, hpower, rfl⟩
    obtain ⟨phase, hliteral, hphase⟩ : ∃ phase, NumberPhase.ofLiteral? mantissa = some phase ∧
        (phase = .zero ∨ phase = .whole ∨ phase = .fraction) := by
      rcases NumberPhase.ofLiteral?_mantissa hmantissa with h | h | h
      · exact ⟨.zero, h, .inl rfl⟩
      · exact ⟨.whole, h, .inr (.inl rfl)⟩
      · exact ⟨.fraction, h, .inr (.inr rfl)⟩
    obtain ⟨final, hrun, hcomplete⟩ := NumberPhase.foldlM_power hphase hpower
    exact ⟨final, by rw [NumberPhase.ofLiteral?_append hliteral, hrun], hcomplete⟩

/-! ### Whole numbers -/

/-- A literal of a whole number: digits, after a minus sign or not. -/
def IsInteger (literal : Bytes) (n : Int) : Prop :=
  ∃ digits m, natOfDigits? digits = some m ∧
    (literal = digits ∧ n = (m : Int) ∨ literal = '-'.toUInt8 :: digits ∧ n = -(m : Int))

/-- Only digits stand for a number. -/
theorem isDigits_of_natOfDigits? {digits : Bytes} {m : Nat} (h : natOfDigits? digits = some m) :
    IsDigits digits := by
  unfold natOfDigits? at h
  split at h
  · assumption
  · simp at h

/-- A literal is read as a whole number if it is one, except for minus zero. -/
theorem intOfLiteral?_eq_some_iff {literal : Bytes} {n : Int} :
    intOfLiteral? literal = some n ↔
      IsInteger literal n ∧ ¬(n = 0 ∧ literal.head? = some '-'.toUInt8) := by
  cases literal with
  | nil =>
    have hnil : ¬IsInteger [] n := by
      rintro ⟨digits, m, hdigits, ⟨rfl, -⟩ | ⟨hcons, -⟩⟩
      · exact (isDigits_of_natOfDigits? hdigits).1 rfl
      · simp at hcons
    simp [intOfLiteral?, hnil]
  | cons b digits =>
    rw [intOfLiteral?]
    split
    · rename_i hminus
      subst b
      -- A minus sign is no digit, so the digits are those after it.
      have hiff : IsInteger ('-'.toUInt8 :: digits) n ↔
          ∃ m : Nat, natOfDigits? digits = some m ∧ n = -(m : Int) := by
        constructor
        · rintro ⟨digits', m, hdigits, ⟨rfl, -⟩ | ⟨heq, hn⟩⟩
          · have hall := (isDigits_of_natOfDigits? hdigits).2
            rw [List.all_cons, Bool.and_eq_true] at hall
            exact absurd hall.1 (by decide)
          · obtain rfl := (List.cons.inj heq).2
            exact ⟨m, hdigits, hn⟩
        · rintro ⟨m, hdigits, hn⟩
          exact ⟨digits, m, hdigits, .inr ⟨rfl, hn⟩⟩
      rw [hiff, Option.bind_eq_bind, Option.bind_eq_some_iff]
      constructor
      · rintro ⟨m, hdigits, hn⟩
        split at hn
        · simp at hn
        · obtain rfl := Option.some.inj hn
          refine ⟨⟨m, hdigits, rfl⟩, ?_⟩
          rintro ⟨hzero, -⟩
          omega
      · rintro ⟨⟨m, hdigits, rfl⟩, hzero⟩
        refine ⟨m, hdigits, ?_⟩
        rw [if_neg (fun hm => hzero ⟨by omega, rfl⟩)]
    · rename_i hminus
      have hiff : IsInteger (b :: digits) n ↔
          ∃ m : Nat, natOfDigits? (b :: digits) = some m ∧ n = (m : Int) := by
        constructor
        · rintro ⟨digits', m, hdigits, ⟨rfl, hn⟩ | ⟨heq, -⟩⟩
          · exact ⟨m, hdigits, hn⟩
          · exact absurd (List.cons.inj heq).1 hminus
        · rintro ⟨m, hdigits, hn⟩
          exact ⟨_, m, hdigits, .inl ⟨rfl, hn⟩⟩
      have hhead : (b :: digits).head? ≠ some '-'.toUInt8 := by simpa using hminus
      rw [hiff, Option.bind_eq_bind, Option.bind_eq_some_iff]
      constructor
      · rintro ⟨m, hdigits, hn⟩
        exact ⟨⟨m, hdigits, (Option.some.inj hn).symm⟩, fun h => hhead h.2⟩
      · rintro ⟨⟨m, hdigits, rfl⟩, -⟩
        exact ⟨m, hdigits, rfl⟩

end Lockbox.Json
