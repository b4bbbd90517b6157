import Lockbox.Json.Value

namespace Lockbox.Json

/-!
# Layout

How a value is laid out as text.  A layout only decides on the blanks between the tokens: none at
all, or each item and member on a line of its own, indented by its depth.
-/

/-- Where blanks go. -/
inductive Layout
  /-- Nowhere. -/
  | compact
  /-- Each item and member on its own line, `width` blanks deeper than what it belongs to, and a
      blank after each colon. -/
  | indented (width : Nat)

namespace Layout

/-- A new line at a depth. -/
def newLine (width depth : Nat) : Bytes := 10 :: List.replicate (width * depth) 32

/-- The blanks between two tokens, inside as many open arrays and objects as `depth` says. -/
def gap (layout : Layout) (depth : Nat) (before after : Token) : Bytes :=
  match layout with
  | compact => []
  | indented width =>
    match before, after with
    | .openArray, .closeArray | .openObject, .closeObject => []
    | _, .closeArray | _, .closeObject => newLine width (depth - 1)
    | .openArray, _ | .openObject, _ | .comma, _ => newLine width depth
    | .colon, _ => [32]
    | _, _ => []

/-- The depth after a token. -/
def deepen (depth : Nat) : Token → Nat
  | .openArray | .openObject => depth + 1
  | .closeArray | .closeObject => depth - 1
  | _ => depth

/-- Lays out tokens one by one, collecting the pieces last first. -/
def writeOnto (layout : Layout) (done : List Bytes) (depth : Nat) :
    List Token → List Bytes
  | [] => done.reverse
  | [token] => (token.spell :: done).reverse
  | token :: after :: rest =>
    let inside := deepen depth token
    writeOnto layout (layout.gap inside token after :: token.spell :: done) inside (after :: rest)

/-- Tokens as text. -/
def write (layout : Layout) (tokens : List Token) : Bytes := (writeOnto layout [] 0 tokens).flatten

end Layout

/-- A value as text. -/
def print (layout : Layout) (value : Json) : Bytes := layout.write value.tokens

end Lockbox.Json
