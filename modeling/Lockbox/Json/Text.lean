import Lockbox.Encoding.Hex

namespace Lockbox.Json

/-!
# Quoted texts

A quoted text is a list of units: bytes that stand for themselves or are escaped by a single letter,
and UTF-16 units escaped as `\u` with four hexadecimal digits.  Any such list is well-formed; only
a list without stray surrogates, whose bytes are valid UTF-8, stands for a text.

* `TextUnit.ofText` — the units that a text is written with.
* `TextUnit.toText?` — the text that units stand for.
* `TextUnit.toText?_ofText` — what is written reads back.
-/

/-- A unit of a quoted text. -/
inductive TextUnit
  /-- A byte. -/
  | byte (value : UInt8)
  /-- A UTF-16 unit, written with four hexadecimal digits. -/
  | utf16 (value : UInt16)
  deriving DecidableEq, Repr

namespace TextUnit

/-! ### Spelling -/

/-- The byte that a letter after a backslash stands for. -/
def ofEscape? (letter : UInt8) : Option UInt8 :=
  if letter = '"'.toUInt8 ∨ letter = '\\'.toUInt8 ∨ letter = '/'.toUInt8 then some letter
  else if letter = 'b'.toUInt8 then some 8
  else if letter = 't'.toUInt8 then some 9
  else if letter = 'n'.toUInt8 then some 10
  else if letter = 'f'.toUInt8 then some 12
  else if letter = 'r'.toUInt8 then some 13
  else none

/-- The letter that a byte is escaped by.  A slash stands for itself. -/
def toEscape? (value : UInt8) : Option UInt8 :=
  if value = '"'.toUInt8 ∨ value = '\\'.toUInt8 then some value
  else if value = 8 then some 'b'.toUInt8
  else if value = 9 then some 't'.toUInt8
  else if value = 10 then some 'n'.toUInt8
  else if value = 12 then some 'f'.toUInt8
  else if value = 13 then some 'r'.toUInt8
  else none

/-- A hexadecimal digit as a byte. -/
def hexByte (n : Nat) : UInt8 := (Hex.digit .lower (n % 16)).toUInt8

/-- A unit as it stands between quotes. -/
def spell : TextUnit → Bytes
  | byte value => match toEscape? value with
    | some letter => ['\\'.toUInt8, letter]
    | none => [value]
  | utf16 value =>
    let n := value.toNat
    ['\\'.toUInt8, 'u'.toUInt8, hexByte (n / 4096), hexByte (n / 256), hexByte (n / 16), hexByte n]

/-- The unit that a byte of a text is written as: control characters that have no letter are written
    as UTF-16 units. -/
def ofByte (value : UInt8) : TextUnit :=
  if value < 0x20 ∧ toEscape? value = none then utf16 value.toUInt16 else byte value

/-- The units that a text is written with. -/
def ofText (s : String) : List TextUnit := (Bytes.ofText s).map ofByte

/-! ### Meaning -/

/-- Does this unit start a pair? -/
def isHigh (value : UInt16) : Bool := 0xd800 ≤ value && value ≤ 0xdbff

/-- Does this unit end a pair? -/
def isLow (value : UInt16) : Bool := 0xdc00 ≤ value && value ≤ 0xdfff

/-- The code point of a pair. -/
def pairPoint (high low : UInt16) : Nat :=
  0x10000 + (high.toNat - 0xd800) * 0x400 + (low.toNat - 0xdc00)

/-- The UTF-8 bytes of a code point. -/
def pointBytes (point : Nat) : Bytes := String.utf8EncodeChar (Char.ofNat point)

/-- Reads unit by unit, collecting the bytes last first.  A surrogate outside a pair stands for
    nothing. -/
def bytesOnto (done : Bytes) : List TextUnit → Option Bytes
  | [] => some done.reverse
  | byte value :: rest => bytesOnto (value :: done) rest
  | utf16 value :: rest =>
    if isHigh value then
      match rest with
      | utf16 low :: rest =>
        if isLow low then bytesOnto ((pointBytes (pairPoint value low)).reverse ++ done) rest
        else none
      | _ => none
    else if isLow value then none
    else bytesOnto ((pointBytes value.toNat).reverse ++ done) rest

/-- The text that units stand for, if they stand for one. -/
def toText? (units : List TextUnit) : Option String := do
  Bytes.toText? (← bytesOnto [] units)

theorem bytesOnto_ofByte (done : Bytes) (value : UInt8) (rest : List TextUnit) :
    bytesOnto done (ofByte value :: rest) = bytesOnto (value :: done) rest := by
  unfold ofByte
  split
  · rename_i h
    have : ∀ value : UInt8, value < 0x20 → isHigh value.toUInt16 = false ∧
        isLow value.toUInt16 = false ∧ pointBytes value.toNat = [value] := by
      intro value hv
      have hn : value.toNat < 32 := hv
      obtain ⟨n, hn'⟩ : ∃ n : Fin 32, value = UInt8.ofNat n.val := ⟨⟨value.toNat, hn⟩, by simp⟩
      subst hn'
      revert n
      decide
    obtain ⟨hhigh, hlow, hbytes⟩ := this value h.1
    rw [bytesOnto.eq_def]
    simp [hhigh, hlow, hbytes]
  · rw [bytesOnto]

theorem bytesOnto_map_ofByte (b done : Bytes) :
    bytesOnto done (b.map ofByte) = some (done.reverse ++ b) := by
  induction b generalizing done with
  | nil => simp [bytesOnto]
  | cons value b ih => rw [List.map_cons, bytesOnto_ofByte, ih]; simp

/-- What is written reads back. -/
theorem toText?_ofText (s : String) : toText? (ofText s) = some s := by
  simp [toText?, ofText, bytesOnto_map_ofByte, Bytes.toText?_ofText]

end TextUnit

end Lockbox.Json
