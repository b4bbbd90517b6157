import Lockbox.Json.Value

namespace Lockbox.Json

/-!
# Records

A record is read from an object by the names of its fields, or from an array by their order.
Members with other names are skipped whatever their values are, but every name must be a text.  A
field that is named twice makes the whole record unreadable.

* `fields?` — the values of the named fields, as far as they are there.
* `string?`, `int32?` — the two kinds of value that fields have.
-/

/-- The value of a field among named members: `none` if the name occurs more than once, `some none`
    if it does not occur. -/
def field? (members : List (String × Json)) (name : String) : Option (Option Json) :=
  match members.filter (·.1 = name) with
  | [] => some none
  | [(_, value)] => some (some value)
  | _ => none

/-- The members with their names as texts. -/
def namedMembers? (members : List (List TextUnit × Json)) : Option (List (String × Json)) :=
  members.mapM fun member => do return (← TextUnit.toText? member.1, member.2)

/-- The values of the fields with these names, in this order. -/
def fields? (names : List String) : Json → Option (List (Option Json))
  | object members => do
    let members ← namedMembers? members
    names.mapM (field? members)
  | array items =>
    if items.length ≤ names.length then
      some (items.map some ++ List.replicate (names.length - items.length) none)
    else none
  | _ => none

/-! ### Kinds of value -/

/-- A text as a value. -/
def ofText (s : String) : Json := text (TextUnit.ofText s)

/-- The text that a value is. -/
def string? : Json → Option String
  | text units => TextUnit.toText? units
  | _ => none

/-- The number that decimal digits stand for, if there are only digits. -/
def natOfDigits? (digits : Bytes) : Option Nat :=
  if digits ≠ [] ∧ digits.all isDigit then
    some (digits.foldl (fun n b => n * 10 + (b.toNat - '0'.toNat)) 0)
  else none

/-- The whole number that a literal stands for.  A literal with a point or an exponent is not a
    whole number, and neither is minus zero. -/
def intOfLiteral? : Bytes → Option Int
  | [] => none
  | b :: digits =>
    if b = '-'.toUInt8 then do
      let n ← natOfDigits? digits
      if n = 0 then none else some (-(n : Int))
    else do return (← natOfDigits? (b :: digits) : Nat)

/-- The literal of a whole number. -/
def literalOfInt (n : Int) : Bytes :=
  let digits : Bytes := (Nat.toDigits 10 n.natAbs).map Char.toUInt8
  if n < 0 then '-'.toUInt8 :: digits else digits

/-- A whole number as a value. -/
def ofInt (n : Int) : Json := number (literalOfInt n)

/-- The whole number of 32 bits that a value is. -/
def int32? : Json → Option Int32
  | number literal => do
    let n ← intOfLiteral? literal
    if Int32.minValue.toInt ≤ n ∧ n ≤ Int32.maxValue.toInt then some (Int32.ofInt n) else none
  | _ => none

/-- The text that a field must hold. -/
def required? (field : Option Json) : Option String := do string? (← field)

/-- The text that a field holds, empty if the field is not there. -/
def optional? (field : Option Json) : Option String :=
  match field with
  | none => some ""
  | some value => string? value

end Lockbox.Json
