import Lockbox.Proofs.Agent.Exchange

namespace Lockbox

/-!
# Messages survive the wire

A request or a response is what its payload is read as, whatever texts are in it.  Only a command
that is unknown and yet spelled like a known one is taken for that one, so that it is the spelling
alone that decides what an agent does.

* `Command.taken`, `Request.taken` — what commands and requests are taken for.
* `Request.toBytes_eq_iff`, `Response.toBytes_injective` — no two messages have one payload.
* `serve_toBytes` — what an agent makes of a request.
* `PasswordStore.noting`, `serve_noting` — what an agent asks of its store.
* `messages_survive_the_wire` — all of this for every message.
-/

/-! ### Commands and their spellings -/

namespace Command

/-- What a command is taken for by the one who reads it. -/
def taken : Command → Command
  | unknown "GET" => get
  | unknown "SET" => set
  | unknown "RST" => reset
  | command => command

theorem ofText_toText_eq_taken (command : Command) : ofText command.toText = command.taken := by
  cases command with
  | unknown text =>
    by_cases hget : text = "GET"
    · rw [hget]
      rfl
    by_cases hset : text = "SET"
    · rw [hset]
      rfl
    by_cases hreset : text = "RST"
    · rw [hreset]
      rfl
    simp [ofText, toText, taken, hget, hset, hreset]
  | _ => rfl

/-- A command is spelled like what it is taken for. -/
theorem toText_taken (command : Command) : command.taken.toText = command.toText := by
  unfold taken
  split <;> rfl

/-- A command is taken for a known one exactly if it is spelled like it. -/
theorem taken_eq_iff {command known : Command} (h : ∀ text, known ≠ unknown text) :
    command.taken = known ↔ command.toText = known.toText := by
  constructor
  · rintro rfl
    exact (toText_taken command).symm
  · intro htext
    rw [← ofText_toText_eq_taken, htext, ofText_toText_eq_taken]
    cases known with
    | unknown text => exact absurd rfl (h text)
    | _ => rfl

/-- What an agent asks of its store for a command: nothing if the command is unknown. -/
def asked : Command → List Command
  | unknown _ => []
  | command => [command]

theorem asked_eq_singleton_iff {command known : Command} (h : ∀ text, known ≠ unknown text) :
    command.asked = [known] ↔ command = known := by
  cases command with
  | unknown text => simpa [asked] using (h text).symm
  | _ => simp [asked]

end Command

/-! ### Requests and responses -/

/-- What a request is taken for by the one who reads it. -/
def Request.taken (request : Request) : Request := { request with command := request.command.taken }

/-- A request reads back as what it is taken for. -/
theorem Request.ofBytes?_toBytes_eq_taken (request : Request) :
    ofBytes? request.toBytes = some request.taken := by
  rw [ofBytes?_toBytes_of, Command.ofText_toText_eq_taken]
  rfl

theorem Request.toBytes_taken (request : Request) : request.taken.toBytes = request.toBytes := by
  rw [toBytes, toBytes, toJson, toJson, taken, Command.toText_taken]

/-- Two requests have one payload exactly if they are taken for the same. -/
theorem Request.toBytes_eq_iff {request other : Request} :
    request.toBytes = other.toBytes ↔ request.taken = other.taken := by
  constructor
  · intro h
    have hread := ofBytes?_toBytes_eq_taken request
    rw [h, ofBytes?_toBytes_eq_taken] at hread
    exact (Option.some.inj hread).symm
  · intro h
    rw [← toBytes_taken, h, toBytes_taken]

theorem Response.toBytes_injective : Function.Injective toBytes := by
  intro response other h
  have hread := ofBytes?_toBytes response
  rw [h, ofBytes?_toBytes] at hread
  exact (Option.some.inj hread).symm

/-! ### What an agent does -/

/-- An agent answers a request as what it is taken for, with any store. -/
theorem serve_toBytes {σ : Type} (store : PasswordStore σ) {request : Request} {frame : Bytes}
    (h : Frame.write request.toBytes = .ok frame) (rest : Bytes) :
    serve store (frame ++ rest) = do
      return Served.ofResponse rest (← request.taken.answer store) := by
  rw [serve_of_read store (Frame.read_write h rest), respond, Request.ofBytes?_toBytes_eq_taken]

/-- A store that has nothing, and notes what it is asked for. -/
def PasswordStore.noting : PasswordStore (List Command) where
  get name := do
    modify (· ++ [.get])
    throw (.missing name)
  set _ _ := modify (· ++ [.set])
  reset _ := modify (· ++ [.reset])

/-- What an agent asks of its store is told by the command that a request is taken for. -/
theorem serve_noting {request : Request} {frame : Bytes}
    (h : Frame.write request.toBytes = .ok frame) (rest : Bytes) :
    (serve PasswordStore.noting (frame ++ rest) []).2 = request.command.taken.asked := by
  rw [serve_toBytes PasswordStore.noting h]
  show (request.taken.answer PasswordStore.noting []).2 = request.taken.command.asked
  rw [Request.answer]
  cases request.taken.command <;> rfl

/-- **Messages survive the wire.**  Whatever texts are in them, a request reads back as what it is
    taken for, and a response as it is; so two requests have one payload only if they are taken for
    the same, and no two responses do.  A request is read as one for a known command exactly if its
    command is spelled so, and it is that command alone that an agent asks of its store.  Both kinds
    of message come out of the stream they are sent on, and leave what comes after them. -/
theorem messages_survive_the_wire :
    (∀ request : Request, Request.ofBytes? request.toBytes = some request.taken) ∧
    (∀ response : Response, Response.ofBytes? response.toBytes = some response) ∧
    (∀ request other : Request, request.toBytes = other.toBytes ↔ request.taken = other.taken) ∧
    Function.Injective Response.toBytes ∧
    (∀ (request : Request) (known : Command), (∀ text, known ≠ .unknown text) →
      ((Request.ofBytes? request.toBytes).map Request.command = some known ↔
        request.command.toText = known.toText) ∧
      ∀ frame rest, Frame.write request.toBytes = .ok frame →
        ((serve PasswordStore.noting (frame ++ rest) []).2 = [known] ↔
          request.command.toText = known.toText)) ∧
    (∀ (request : Request) (frame rest : Bytes), Frame.write request.toBytes = .ok frame →
      ∀ (σ : Type) (store : PasswordStore σ), serve store (frame ++ rest) = do
        return Served.ofResponse rest (← request.taken.answer store)) ∧
    ∀ (response : Response) (frame rest : Bytes), Frame.write response.toBytes = .ok frame →
      Response.read (frame ++ rest) = (response.result, rest) := by
  refine ⟨Request.ofBytes?_toBytes_eq_taken, Response.ofBytes?_toBytes,
    fun _ _ => Request.toBytes_eq_iff, Response.toBytes_injective,
    fun request known hknown => ⟨?_, fun frame rest hwrite => ?_⟩,
    fun _ _ rest hwrite _ store => serve_toBytes store hwrite rest,
    fun _ _ rest hwrite => Response.read_write_append hwrite rest⟩
  · rw [Request.ofBytes?_toBytes_eq_taken, Option.map_some, Option.some.injEq]
    exact Command.taken_eq_iff hknown
  · rw [serve_noting hwrite, Command.asked_eq_singleton_iff hknown, Command.taken_eq_iff hknown]

/-- A request with an unknown command that is spelled like a known one, for a name that needs
    escapes: it is read as one to get a password, and served as such. -/
theorem unknown_get_is_served :
    let request : Request := { command := .unknown "GET", name := "\"\n😀", data := "" }
    Request.ofBytes? request.toBytes = some { request with command := .get } ∧
      ∃ frame, Frame.write request.toBytes = .ok frame ∧
        (serve PasswordStore.noting (frame ++ [0]) []).2 = [.get] := by
  intro request
  obtain ⟨hrequest, -, -, -, hknown, -, -⟩ := messages_survive_the_wire
  have hfits : request.toBytes.length ≤ Frame.maxSize := by decide +kernel
  obtain ⟨-, hserved⟩ := hknown request .get nofun
  exact ⟨hrequest request, _, Frame.write_eq_ok hfits,
    (hserved _ [0] (Frame.write_eq_ok hfits)).mpr rfl⟩

end Lockbox
