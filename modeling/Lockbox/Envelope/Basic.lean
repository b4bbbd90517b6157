import Lockbox.Encoding.Base64
import Lockbox.Json.Fields
import Lockbox.Json.Layout

namespace Lockbox

/-!
# Envelopes

An envelope is what is stored of a ciphertext: the identifier of the key derivation, the salt, the
nonce and the ciphertext itself.  As text it is a JSON object, indented by two blanks, with the
three byte strings in Base64.

* `Envelope.toBytes` — an envelope as text.
* `Envelope.ofBytes?` — the envelope that a text describes.
-/

/-- What is stored of a ciphertext. -/
structure Envelope where
  /-- The identifier of the key derivation. -/
  derivation : String
  /-- The salt of the key derivation. -/
  salt : Bytes
  /-- The nonce of the cipher. -/
  nonce : Bytes
  /-- The ciphertext and its tag. -/
  data : Bytes
  deriving DecidableEq, Repr

namespace Envelope

/-- The names of the fields. -/
def fieldNames : List String := ["PbKdf", "Salt", "Nonce", "Data"]

/-- A byte string as a value. -/
def bytesToJson (b : Bytes) : Json := Json.ofText (String.ofList (Base64.encode b))

/-- The byte string that a field must hold. -/
def bytesOfJson? (field : Option Json) : Option Bytes := do
  Base64.decode? (← Json.required? field).toList

/-- An envelope as a value. -/
def toJson (e : Envelope) : Json :=
  .object [
    (Json.TextUnit.ofText "PbKdf", Json.ofText e.derivation),
    (Json.TextUnit.ofText "Salt", bytesToJson e.salt),
    (Json.TextUnit.ofText "Nonce", bytesToJson e.nonce),
    (Json.TextUnit.ofText "Data", bytesToJson e.data)]

/-- The envelope that a value describes. -/
def ofJson? (value : Json) : Option Envelope := do
  match ← value.fields? fieldNames with
  | [derivation, salt, nonce, data] =>
    return {
      derivation := ← Json.required? derivation
      salt := ← bytesOfJson? salt
      nonce := ← bytesOfJson? nonce
      data := ← bytesOfJson? data }
  | _ => none

/-- An envelope as text. -/
def toBytes (e : Envelope) : Bytes := e.toJson.print (.indented 2)

/-- The envelope that a text describes. -/
def ofBytes? (b : Bytes) : Option Envelope := do ofJson? (← Json.parse? b)

end Envelope

end Lockbox
