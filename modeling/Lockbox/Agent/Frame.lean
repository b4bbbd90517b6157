import Lockbox.Bytes
import Lockbox.Fault

namespace Lockbox

/-!
# Frames

A message travels in a frame: two bytes with the length of the payload, the high one first, and then
the payload.

* `Frame.write` — a payload as a frame.
* `Frame.read` — the first payload of a stream, and what is left of the stream.
* `Frame.readMany` — the payloads of a stream one after the other.
-/

/-- Why a password cannot be had from an agent, or given to it. -/
inductive AgentError
  /-- No password is kept under this name. -/
  | missing (name : String)
  /-- The connection fails. -/
  | transport (fault : Fault)
  /-- The payload has too many bytes for a frame. -/
  | tooLarge (size : Nat)
  /-- The payload is not the message it should be. -/
  | malformed
  /-- The agent answers with an error of its own. -/
  | rejected (code : Int32) (data : String)
  deriving DecidableEq, Repr

/-- The wording of a failure. -/
def AgentError.message : AgentError → String
  | missing name => s!"No password cached for '{name}'"
  | transport _ => "Transport error"
  | tooLarge size => s!"Payload of {size} bytes exceeds the frame limit"
  | malformed => "Malformed message"
  | rejected code data => s!"Agent returned error {code}: {data}"

namespace Frame

/-- The greatest number of bytes in a payload. -/
def maxSize : Nat := 65535

/-- A payload as a frame. -/
def write (payload : Bytes) : Except AgentError Bytes :=
  if payload.length > maxSize then .error (.tooLarge payload.length)
  else .ok (Bytes.ofNatBE 2 payload.length ++ payload)

/-- The first payload of a stream, and what is left of the stream.  A stream that ends within a
    frame is used up. -/
def read (stream : Bytes) : Except AgentError Bytes × Bytes :=
  match stream with
  | high :: low :: rest =>
    let size := Bytes.toNatBE [high, low]
    if size ≤ rest.length then (.ok (rest.take size), rest.drop size)
    else (.error (.transport .unexpectedEnd), [])
  | _ => (.error (.transport .unexpectedEnd), [])

/-- Reads frames one after the other, at most so many: the payloads, each with what is left of the
    stream after it, and the failure if one ends the reading. -/
def readMany : (limit : Nat) → (stream : Bytes) → List (Bytes × Bytes) × Option AgentError
  | 0, _ => ([], none)
  | limit + 1, stream =>
    match read stream with
    | (.error error, _) => ([], some error)
    | (.ok payload, rest) =>
      let (frames, error) := readMany limit rest
      ((payload, rest) :: frames, error)

end Frame

end Lockbox
