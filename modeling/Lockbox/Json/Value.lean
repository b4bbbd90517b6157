import Lockbox.Json.Token

namespace Lockbox

/-!
# JSON values

A JSON value keeps its number literals and its quoted texts as they are written, and its members in
their order with all repetitions: what a value means is decided where it is read from.

* `Json.tokens` — a value as tokens.
* `Json.ofTokens?` — the value that tokens spell, read with an explicit stack, so that no depth of
  nesting is too deep.
* `Json.parse?` — the value that a text spells.
-/

/-- A JSON value. -/
inductive Json
  | null
  | bool (value : Bool)
  | number (literal : Bytes)
  | text (units : List Json.TextUnit)
  | array (items : List Json)
  | object (members : List (List Json.TextUnit × Json))

namespace Json

/-! ### Writing tokens -/

mutual

/-- A value as tokens. -/
def tokens : Json → List Token
  | null => [.null]
  | bool value => [.bool value]
  | number literal => [.number literal]
  | text units => [.text units]
  | array [] => [.openArray, .closeArray]
  | array (item :: items) => .openArray :: (tokens item ++ (moreItems items ++ [.closeArray]))
  | object [] => [.openObject, .closeObject]
  | object ((name, value) :: members) =>
    .openObject :: .text name :: .colon ::
      (tokens value ++ (moreMembers members ++ [.closeObject]))

/-- The items after the first one, each after a comma. -/
def moreItems : List Json → List Token
  | [] => []
  | item :: items => .comma :: (tokens item ++ moreItems items)

/-- The members after the first one, each after a comma. -/
def moreMembers : List (List TextUnit × Json) → List Token
  | [] => []
  | (name, value) :: members =>
    .comma :: .text name :: .colon :: (tokens value ++ moreMembers members)

end

/-! ### Reading tokens -/

/-- A value that has been opened and not yet closed.  Lists are kept last first. -/
inductive Frame
  /-- An array with its items so far. -/
  | items (done : List Json)
  /-- An object with its members so far. -/
  | members (done : List (List TextUnit × Json))
  /-- An object with its members so far, within the member of this name. -/
  | member (done : List (List TextUnit × Json)) (name : List TextUnit)

/-- What must come next, with the frames around it, innermost first. -/
inductive Parser
  /-- A value. -/
  | beforeValue (frames : List Frame)
  /-- The first item of an array, or its end. -/
  | afterOpenArray (frames : List Frame)
  /-- The first member of an object, or its end. -/
  | afterOpenObject (frames : List Frame)
  /-- The name of a member. -/
  | beforeName (done : List (List TextUnit × Json)) (frames : List Frame)
  /-- The colon after the name of a member. -/
  | beforeColon (done : List (List TextUnit × Json)) (name : List TextUnit) (frames : List Frame)
  /-- A comma, or the end of the innermost array or object. -/
  | afterValue (frames : List Frame)
  /-- Nothing: the value is complete. -/
  | complete (value : Json)

namespace Parser

/-- The state after a complete value. -/
def close (value : Json) : List Frame → Option Parser
  | [] => some (.complete value)
  | .items done :: frames => some (.afterValue (.items (value :: done) :: frames))
  | .member done name :: frames => some (.afterValue (.members ((name, value) :: done) :: frames))
  | .members _ :: _ => none

/-- Reads the first token of a value. -/
def enter (frames : List Frame) : Token → Option Parser
  | .null => close .null frames
  | .bool value => close (.bool value) frames
  | .number literal => close (.number literal) frames
  | .text units => close (.text units) frames
  | .openArray => some (.afterOpenArray frames)
  | .openObject => some (.afterOpenObject frames)
  | .closeArray | .closeObject | .comma | .colon => none

/-- Reads one token. -/
def step : Parser → Token → Option Parser
  | .beforeValue frames, token => enter frames token
  | .afterOpenArray frames, .closeArray => close (.array []) frames
  | .afterOpenArray frames, token => enter (.items [] :: frames) token
  | .afterOpenObject frames, .closeObject => close (.object []) frames
  | .afterOpenObject frames, .text units => some (.beforeColon [] units frames)
  | .beforeName done frames, .text units => some (.beforeColon done units frames)
  | .beforeColon done name frames, .colon => some (.beforeValue (.member done name :: frames))
  | .afterValue (.items done :: frames), .comma => some (.beforeValue (.items done :: frames))
  | .afterValue (.items done :: frames), .closeArray => close (.array done.reverse) frames
  | .afterValue (.members done :: frames), .comma => some (.beforeName done frames)
  | .afterValue (.members done :: frames), .closeObject => close (.object done.reverse) frames
  | _, _ => none

end Parser

/-- The value that tokens spell. -/
def ofTokens? (tokens : List Token) : Option Json :=
  match tokens.foldlM Parser.step (.beforeValue []) with
  | some (.complete value) => some value
  | _ => none

/-- The value that a text spells. -/
def parse? (b : Bytes) : Option Json := do ofTokens? (← Token.read? b)

end Json

end Lockbox
