import Lockbox.Agent.Message
import Lockbox.Proofs.Bytes
import Lockbox.Proofs.Json.Fields

namespace Lockbox

/-!
# Messages read back

What is sent in a frame comes out of the stream it is sent on, whatever follows it, and a request or
response is what its payload reads as.  How long a payload is depends on the texts in it alone.

* `Frame.read_eq_ok`, `read_write` — a frame and what follows it.
* `Request.ofBytes?_toBytes`, `Response.ofBytes?_toBytes` — messages as payloads.
* `Request.length_toBytes`, `Response.length_ok` — how long payloads are.
-/

/-! ### Frames -/

namespace Frame

/-- When a payload fits a frame, and what it is then. -/
theorem write_eq_ok {payload : Bytes} (h : payload.length ≤ maxSize) :
    write payload = .ok (Bytes.ofNatBE 2 payload.length ++ payload) := by
  rw [write, if_neg (Nat.not_lt.mpr h)]

/-- A payload that fits no frame. -/
theorem write_eq_error {payload : Bytes} (h : maxSize < payload.length) :
    write payload = .error (.tooLarge payload.length) := by
  rw [write, if_pos h]

theorem length_le_of_write {payload frame : Bytes} (h : write payload = .ok frame) :
    payload.length ≤ maxSize := by
  by_cases hlong : maxSize < payload.length
  · rw [write_eq_error hlong] at h
    cases h
  · exact Nat.le_of_not_lt hlong

/-- What it takes to read a payload from a stream: two bytes that say how long it is, the payload,
    and what follows. -/
theorem read_eq_ok {stream payload rest : Bytes} :
    read stream = (.ok payload, rest) ↔ ∃ high low,
      stream = high :: low :: (payload ++ rest) ∧ Bytes.toNatBE [high, low] = payload.length := by
  constructor
  · intro h
    unfold read at h
    split at h
    · rename_i high low body
      dsimp only at h
      split at h
      · rename_i hsize
        obtain ⟨hpayload, rfl⟩ := Prod.mk.inj h
        obtain rfl := Except.ok.inj hpayload
        refine ⟨high, low, by rw [List.take_append_drop], ?_⟩
        rw [List.length_take, Nat.min_eq_left hsize]
      · cases (Prod.mk.inj h).1
    · cases (Prod.mk.inj h).1
  · rintro ⟨high, low, rfl, hvalue⟩
    have hfits : Bytes.toNatBE [high, low] ≤ (payload ++ rest).length := by
      rw [hvalue, List.length_append]
      omega
    rw [read, if_pos hfits, hvalue, List.take_left, List.drop_left]

/-- A frame reads back from the stream it is in, and leaves what follows it. -/
theorem read_write {payload frame : Bytes} (h : write payload = .ok frame) (rest : Bytes) :
    read (frame ++ rest) = (.ok payload, rest) := by
  have hle := length_le_of_write h
  rw [write_eq_ok hle, Except.ok.injEq] at h
  -- The size takes two bytes, high and low, which read back as the size.
  obtain ⟨high, low, hsize⟩ : ∃ high low, Bytes.ofNatBE 2 payload.length = [high, low] :=
    ⟨_, _, by simp [Bytes.ofNatBE, Bytes.ofNatLE, List.range_succ]; exact ⟨rfl, rfl⟩⟩
  rw [← h, hsize, List.append_assoc]
  refine read_eq_ok.mpr ⟨high, low, rfl, ?_⟩
  rw [← hsize, Bytes.toNatBE_pair (Nat.lt_succ_of_le hle)]

/-- The payload of a frame is as long as two bytes can say. -/
theorem length_le_of_read {stream payload rest : Bytes} (h : read stream = (.ok payload, rest)) :
    payload.length ≤ maxSize := by
  obtain ⟨high, low, -, hvalue⟩ := read_eq_ok.mp h
  have hhigh := high.toNat_lt
  have hlow := low.toNat_lt
  have hsize : Bytes.toNatBE [high, low] = high.toNat * 256 + low.toNat := by
    simp [Bytes.toNatBE]
  have hmax : maxSize = 65535 := rfl
  omega

/-- What comes after the first payload of a stream does not matter to it. -/
theorem read_append {stream payload unread : Bytes} (h : read stream = (.ok payload, unread))
    (rest : Bytes) : read (stream ++ rest) = (.ok payload, unread ++ rest) := by
  obtain ⟨high, low, rfl, hvalue⟩ := read_eq_ok.mp h
  refine read_eq_ok.mpr ⟨high, low, ?_, hvalue⟩
  rw [List.cons_append, List.cons_append, List.append_assoc]

/-- Is this one frame, and nothing else? -/
def IsWhole (frame : Bytes) : Prop := ∃ payload, read frame = (.ok payload, [])

/-- A stream that starts with a whole frame, cut after it. -/
theorem exists_whole {stream payload rest : Bytes} (h : read stream = (.ok payload, rest)) :
    ∃ frame, stream = frame ++ rest ∧ read frame = (.ok payload, []) := by
  obtain ⟨high, low, rfl, hvalue⟩ := read_eq_ok.mp h
  refine ⟨high :: low :: payload, rfl, read_eq_ok.mpr ⟨high, low, ?_, hvalue⟩⟩
  rw [List.append_nil]

end Frame

/-! ### Requests -/

/-- A command reads back, unless it is unknown and spelled like one that is known. -/
def Command.Proper : Command → Prop
  | unknown text => ofText text = unknown text
  | _ => True

theorem Command.ofText_toText {command : Command} (h : command.Proper) :
    ofText command.toText = command := by
  cases command with
  | unknown text => exact h
  | _ => decide

namespace Request

theorem toJson_eq (request : Request) :
    request.toJson = .object ([("Command", Json.ofText request.command.toText),
      ("PwName", Json.ofText request.name), ("PwData", Json.ofText request.data)].map
        fun member => (Json.TextUnit.ofText member.1, member.2)) := rfl

/-- A request can be written. -/
theorem readable_toJson (request : Request) : request.toJson.Readable := by
  rw [toJson_eq]
  refine Json.readable_object fun member hmem => ?_
  simp only [List.mem_cons, List.not_mem_nil, or_false] at hmem
  rcases hmem with rfl | rfl | rfl <;> exact Json.readable_ofText _

/-- A request reads back from its payload, with the command that its command is spelled like. -/
theorem ofBytes?_toBytes_of (request : Request) :
    ofBytes? request.toBytes =
      some { request with command := Command.ofText request.command.toText } := by
  rw [ofBytes?, toBytes, Json.parse?_print .compact request.readable_toJson]
  show ofJson? request.toJson = _
  have hfields : request.toJson.fields? fieldNames =
      some [some (Json.ofText request.command.toText), some (Json.ofText request.name),
        some (Json.ofText request.data)] := by
    rw [toJson_eq]
    exact Json.fields?_object (show fieldNames.Nodup by decide)
  rw [ofJson?, hfields]
  simp

/-- A request whose command is what it is spelled like reads back as it is. -/
theorem ofBytes?_toBytes {request : Request} (h : request.command.Proper) :
    ofBytes? request.toBytes = some request := by
  rw [ofBytes?_toBytes_of, Command.ofText_toText h]

/-- How long the payload of a request is. -/
theorem length_toBytes (request : Request) :
    request.toBytes.length = 38 + Json.TextUnit.size (Json.TextUnit.ofText request.command.toText) +
      Json.TextUnit.size (Json.TextUnit.ofText request.name) +
      Json.TextUnit.size (Json.TextUnit.ofText request.data) := by
  -- What does not depend on the request: the names, and the marks around them.
  have hnames : Json.TextUnit.size (Json.TextUnit.ofText "Command") = 7 ∧
      Json.TextUnit.size (Json.TextUnit.ofText "PwName") = 6 ∧
      Json.TextUnit.size (Json.TextUnit.ofText "PwData") = 6 := by decide
  obtain ⟨hcommand, hname, hdata⟩ := hnames
  rw [toBytes, Json.length_print_compact, toJson]
  simp only [Json.tokens, Json.moreMembers, Json.ofText, Json.Token.size_cons,
    Json.Token.size_append, Json.Token.size_nil, Json.Token.length_spell_text, hcommand, hname,
    hdata]
  simp only [Json.Token.spell, List.length_singleton]
  omega

/-- How long the payload of a command that agents know is. -/
theorem length_toBytes_known {request : Request}
    (h : request.command = .get ∨ request.command = .set ∨ request.command = .reset) :
    request.toBytes.length = 41 + Json.TextUnit.size (Json.TextUnit.ofText request.name) +
      Json.TextUnit.size (Json.TextUnit.ofText request.data) := by
  have hcommand : Json.TextUnit.size (Json.TextUnit.ofText request.command.toText) = 3 := by
    rcases h with h | h | h <;> (rw [h]; decide)
  rw [length_toBytes, hcommand]

end Request

/-! ### Responses -/

namespace Response

theorem toJson_eq (response : Response) :
    response.toJson = .object ([("ResultCode", Json.ofInt response.code.toInt),
      ("ResultData", Json.ofText response.data)].map
        fun member => (Json.TextUnit.ofText member.1, member.2)) := rfl

/-- A response can be written. -/
theorem readable_toJson (response : Response) : response.toJson.Readable := by
  rw [toJson_eq]
  refine Json.readable_object fun member hmem => ?_
  simp only [List.mem_cons, List.not_mem_nil, or_false] at hmem
  rcases hmem with rfl | rfl
  · exact Json.readable_ofInt _
  · exact Json.readable_ofText _

/-- A response reads back from its payload. -/
theorem ofBytes?_toBytes (response : Response) : ofBytes? response.toBytes = some response := by
  rw [ofBytes?, toBytes, Json.parse?_print .compact response.readable_toJson]
  show ofJson? response.toJson = some response
  have hfields : response.toJson.fields? fieldNames =
      some [some (Json.ofInt response.code.toInt), some (Json.ofText response.data)] := by
    rw [toJson_eq]
    exact Json.fields?_object (show fieldNames.Nodup by decide)
  rw [ofJson?, hfields]
  simp

/-- How long the payload of a response is when all went well. -/
theorem length_ok (data : String) :
    (ok data).toBytes.length = 32 + Json.TextUnit.size (Json.TextUnit.ofText data) := by
  have hnames : Json.TextUnit.size (Json.TextUnit.ofText "ResultCode") = 10 ∧
      Json.TextUnit.size (Json.TextUnit.ofText "ResultData") = 10 := by decide
  obtain ⟨hcode, hdata⟩ := hnames
  have hzero : Json.literalOfInt (0 : Int32).toInt = ['0'.toUInt8] := by decide
  rw [toBytes, Json.length_print_compact, toJson]
  simp only [ok, Json.tokens, Json.moreMembers, Json.ofText, Json.ofInt, Json.Token.size_cons,
    Json.Token.size_append, Json.Token.size_nil, Json.Token.length_spell_text, hcode, hdata, hzero]
  simp only [Json.Token.spell, List.length_singleton]
  omega

/-- The answer to what is no request fits a frame. -/
theorem length_error : error.toBytes.length = 32 := by
  have : error.toBytes = Bytes.ofText "\x7b\"ResultCode\":1,\"ResultData\":\"\"\x7d" := by
    decide +kernel
  rw [this]
  decide +kernel

end Response

end Lockbox
