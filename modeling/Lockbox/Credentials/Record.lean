import Lockbox.Encoding.Hex
import Lockbox.Encoding.Pieces

namespace Lockbox

/-!
# Credential records

A record is a small text with a line for a user and a line for a masked password.  It is meant to be
edited by hand, so reading is lenient about everything around the two values: each comes from the
first line that holds it.

* `Record.toText` — the two lines of a record.
* `Record.ofText?` — the record that a text holds.
* `Record.userOf?`, `Record.maskedOf?` — what a single line holds.
-/

/-- A user and a masked password. -/
structure Record where
  /-- The user. -/
  user : String
  /-- The masked password. -/
  masked : Bytes
  deriving DecidableEq, Repr

namespace Record

/-- The name in the line of the user. -/
def userName : List Char := "webdav_user".toList

/-- The name in the line of the password. -/
def passwordName : List Char := "webdav_pw".toList

/-- What comes before the digits of the password. -/
def marker : List Char := "##obfuscated##:".toList

/-! ### Writing -/

/-- The line of a user. -/
def userLine (user : String) : List Char :=
  userName ++ " = \"".toList ++ user.toList ++ ['"']

/-- The line of a masked password. -/
def passwordLine (masked : Bytes) : List Char :=
  passwordName ++ " = \"".toList ++ marker ++ Hex.encode .upper masked ++ ['"']

/-- The two lines of a record. -/
def toText (record : Record) : String :=
  String.ofList (userLine record.user ++ ['\n'] ++ (passwordLine record.masked ++ ['\n']))

/-! ### Reading a line -/

/-- Does `part` occur in the text? -/
def occurs (part : List Char) : List Char → Bool
  | [] => part.isEmpty
  | c :: rest => part.isPrefixOf (c :: rest) || occurs part rest

/-- Does the name occur in the text, given last character first, with at least one character after
    it? -/
def isNamed (name : List Char) : List Char → Bool
  | [] => false
  | _ :: before => occurs name.reverse before

/-- The user in a line: what stands, on at least one character, between the last quote and the quote
    before that.  The name must be further to the left, not directly at the quote. -/
def userOf? (line : List Char) : Option String :=
  match line.reverse.dropWhile (· ≠ '"') with
  | _ :: c :: before =>
    let user := c :: before.takeWhile (· ≠ '"')
    match before.dropWhile (· ≠ '"') with
    | _ :: before => if isNamed userName before then some (String.ofList user.reverse) else none
    | [] => none
  | _ => none

/-- The last place where the marker is followed by a digit: what is before it, last character first,
    and what is after it. -/
def lastMarked (found : Option (List Char × List Char)) (before : List Char) :
    List Char → Option (List Char × List Char)
  | [] => found
  | c :: rest =>
    let after := (c :: rest).drop marker.length
    let here := marker.isPrefixOf (c :: rest) && (after.head?.map Hex.isDigit).getD false
    lastMarked (if here then some (before, after) else found) (c :: before) rest

/-- The masked password in a line: the digits after the last marker that has any.  The name must be
    further to the left, not directly at the marker, and the number of digits must be even. -/
def maskedOf? (line : List Char) : Option Bytes := do
  let (before, after) ← lastMarked none [] line
  if isNamed passwordName before then Hex.decode? (after.takeWhile Hex.isDigit) else none

/-! ### Reading a text -/

/-- A line without the carriage return at its end. -/
def dropReturn (line : List Char) : List Char :=
  if line.getLast? = some '\r' then line.dropLast else line

/-- The lines of a text.  What follows the last line feed is a line only if it is not empty. -/
def lines (text : List Char) : List (List Char) :=
  let parts := pieces '\n' text
  parts.dropLast.map dropReturn ++ (parts.getLast?.filter (· ≠ [])).toList

/-- The record that a text holds. -/
def ofText? (text : String) : Option Record := do
  let lines := lines text.toList
  return { user := ← lines.findSome? userOf?, masked := ← lines.findSome? maskedOf? }

end Record

end Lockbox
