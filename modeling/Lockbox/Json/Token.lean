import Lockbox.Json.Text

namespace Lockbox.Json

/-!
# Tokens

A JSON text is cut into tokens byte by byte.  The state of a `Lexer` between two bytes is the tokens
so far and how far it is into the next one, so reading a text in pieces is reading it in one go.

* `Token.spell` — a token as bytes.
* `Token.read?` — the tokens of a text, with blanks between them dropped.
-/

/-- A token of a JSON text. -/
inductive Token
  | openArray
  | closeArray
  | openObject
  | closeObject
  | comma
  | colon
  | null
  | bool (value : Bool)
  /-- A number, as its literal. -/
  | number (literal : Bytes)
  /-- A quoted text. -/
  | text (units : List TextUnit)
  deriving DecidableEq, Repr

namespace Token

/-! ### Spelling -/

/-- A token as bytes. -/
def spell : Token → Bytes
  | openArray => ['['.toUInt8]
  | closeArray => [']'.toUInt8]
  | openObject => ['\x7b'.toUInt8]
  | closeObject => ['\x7d'.toUInt8]
  | comma => [','.toUInt8]
  | colon => [':'.toUInt8]
  | null => Bytes.ofText "null"
  | bool true => Bytes.ofText "true"
  | bool false => Bytes.ofText "false"
  | number literal => literal
  | text units => '"'.toUInt8 :: (units.flatMap TextUnit.spell ++ ['"'.toUInt8])

/-- Is this byte a blank between tokens? -/
def isBlank (b : UInt8) : Bool := b == 32 || b == 9 || b == 10 || b == 13

/-- The token that a byte is on its own. -/
def ofPunctuation? (b : UInt8) : Option Token :=
  if b = '['.toUInt8 then some openArray
  else if b = ']'.toUInt8 then some closeArray
  else if b = '\x7b'.toUInt8 then some openObject
  else if b = '\x7d'.toUInt8 then some closeObject
  else if b = ','.toUInt8 then some comma
  else if b = ':'.toUInt8 then some colon
  else none

/-- The token that a word is. -/
def ofWord? (letters : Bytes) : Option Token :=
  if letters = Bytes.ofText "null" then some null
  else if letters = Bytes.ofText "true" then some (bool true)
  else if letters = Bytes.ofText "false" then some (bool false)
  else none

end Token

/-! ### Numbers -/

/-- How far a number literal has got. -/
inductive NumberPhase
  /-- After the sign. -/
  | sign
  /-- After a leading zero, which no digit may follow. -/
  | zero
  /-- Within the digits before the point. -/
  | whole
  /-- After the point. -/
  | point
  /-- Within the digits after the point. -/
  | fraction
  /-- After the letter of the exponent. -/
  | exponent
  /-- After the sign of the exponent. -/
  | exponentSign
  /-- Within the digits of the exponent. -/
  | exponentDigits
  deriving DecidableEq, Repr

/-- Is this byte a decimal digit? -/
def isDigit (b : UInt8) : Bool := '0'.toUInt8 ≤ b && b ≤ '9'.toUInt8

/-- Does this byte start an exponent? -/
def isExponent (b : UInt8) : Bool := b == 'e'.toUInt8 || b == 'E'.toUInt8

namespace NumberPhase

/-- The phase that a number starts in with this byte. -/
def first? (b : UInt8) : Option NumberPhase :=
  if b = '-'.toUInt8 then some sign
  else if b = '0'.toUInt8 then some zero
  else if isDigit b then some whole
  else none

/-- The phase after one more byte, if the byte belongs to the number. -/
def next? (phase : NumberPhase) (b : UInt8) : Option NumberPhase :=
  match phase with
  | sign => if b = '0'.toUInt8 then some zero else if isDigit b then some whole else none
  | zero => if b = '.'.toUInt8 then some point else if isExponent b then some exponent else none
  | whole =>
    if isDigit b then some whole
    else if b = '.'.toUInt8 then some point
    else if isExponent b then some exponent
    else none
  | point => if isDigit b then some fraction else none
  | fraction =>
    if isDigit b then some fraction else if isExponent b then some exponent else none
  | exponent =>
    if b = '+'.toUInt8 ∨ b = '-'.toUInt8 then some exponentSign
    else if isDigit b then some exponentDigits
    else none
  | exponentSign => if isDigit b then some exponentDigits else none
  | exponentDigits => if isDigit b then some exponentDigits else none

/-- May a number end here? -/
def isComplete : NumberPhase → Bool
  | zero | whole | fraction | exponentDigits => true
  | sign | point | exponent | exponentSign => false

end NumberPhase

/-! ### Reading -/

/-- What the reader is in the middle of.  Lists are kept last first. -/
inductive Lexer.Mode
  /-- Between tokens. -/
  | between
  /-- Within a word. -/
  | word (letters : Bytes)
  /-- Within a number. -/
  | number (phase : NumberPhase) (literal : Bytes)
  /-- Within a quoted text. -/
  | text (units : List TextUnit)
  /-- After a backslash. -/
  | escape (units : List TextUnit)
  /-- Within the digits of a UTF-16 unit, of which `left` are missing. -/
  | digits (units : List TextUnit) (left value : Nat)

/-- The state of the reader between two bytes. -/
structure Lexer where
  /-- The tokens so far, last first. -/
  tokens : List Token
  /-- What comes next. -/
  mode : Lexer.Mode

namespace Lexer

/-- The state at the start of a text. -/
def start : Lexer := ⟨[], .between⟩

/-- Reads a byte that starts a token, or a blank. -/
def enter (tokens : List Token) (b : UInt8) : Option Lexer :=
  if Token.isBlank b then some ⟨tokens, .between⟩
  else if b = '"'.toUInt8 then some ⟨tokens, .text []⟩
  else if 'a'.toUInt8 ≤ b ∧ b ≤ 'z'.toUInt8 then some ⟨tokens, .word [b]⟩
  else match Token.ofPunctuation? b, NumberPhase.first? b with
    | some token, _ => some ⟨token :: tokens, .between⟩
    | none, some phase => some ⟨tokens, .number phase [b]⟩
    | none, none => none

/-- The tokens so far, last first, if one may end here. -/
def settle? (lexer : Lexer) : Option (List Token) :=
  match lexer.mode with
  | .between => some lexer.tokens
  | .word letters => do some ((← Token.ofWord? letters.reverse) :: lexer.tokens)
  | .number phase literal =>
    if phase.isComplete then some (.number literal.reverse :: lexer.tokens) else none
  | .text _ | .escape _ | .digits _ _ _ => none

/-- Reads a byte that the token so far has no place for. -/
def leave (lexer : Lexer) (b : UInt8) : Option Lexer := do enter (← lexer.settle?) b

/-- Reads one byte. -/
def step (lexer : Lexer) (b : UInt8) : Option Lexer :=
  let stay (mode : Mode) := some { lexer with mode }
  match lexer.mode with
  | .between => lexer.leave b
  | .word letters =>
    if 'a'.toUInt8 ≤ b ∧ b ≤ 'z'.toUInt8 then stay (.word (b :: letters)) else lexer.leave b
  | .number phase literal =>
    match phase.next? b with
    | some phase => stay (.number phase (b :: literal))
    | none => lexer.leave b
  | .text units =>
    if b = '"'.toUInt8 then some ⟨.text units.reverse :: lexer.tokens, .between⟩
    else if b = '\\'.toUInt8 then stay (.escape units)
    else if b < 0x20 then none
    else stay (.text (.byte b :: units))
  | .escape units =>
    if b = 'u'.toUInt8 then stay (.digits units 4 0)
    else do stay (.text (.byte (← TextUnit.ofEscape? b) :: units))
  | .digits units left value => do
    let value := value * 16 + (← Hex.value? (Char.ofUInt8 b))
    if left ≤ 1 then stay (.text (.utf16 (UInt16.ofNat value) :: units))
    else stay (.digits units (left - 1) value)

end Lexer

/-- The tokens of a text. -/
def Token.read? (b : Bytes) : Option (List Token) := do
  let lexer ← b.foldlM Lexer.step Lexer.start
  return (← lexer.settle?).reverse

end Lockbox.Json
