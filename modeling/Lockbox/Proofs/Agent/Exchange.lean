import Lockbox.Agent.Exchange
import Lockbox.Proofs.Agent.Messages
import Lockbox.Proofs.Steps

namespace Lockbox

/-!
# One connection

What serving a connection comes to: the request is decoded, the store answers, and the answer is
written if it fits a frame.

* `respond`, `Served.ofResponse` — the two halves of serving a connection.
* `serve_of_read`, `serve_first` — serving a stream that starts with a whole frame.
* `PasswordStore.cache_get`, `cache_set`, `cache_reset`, `Request.answer_cache` — what a cache does.
* `Response.read_write` — what a client makes of an answer.
-/

/-! ### The agent -/

/-- What a store responds to a payload. -/
def respond {σ : Type} (store : PasswordStore σ) (payload : Bytes) : StateM σ Response :=
  match Request.ofBytes? payload with
  | some request => request.answer store
  | none => pure .error

/-- What comes of serving a connection that leaves so much unread when the response is known. -/
def Served.ofResponse (unread : Bytes) (response : Response) : Served :=
  match Frame.write response.toBytes with
  | .ok frame => { outcome := .ok (), written := frame, unread }
  | .error error => { outcome := .error error, written := [], unread }

/-- Serving a stream that starts with a whole frame. -/
theorem serve_of_read {σ : Type} (store : PasswordStore σ) {stream payload rest : Bytes}
    (h : Frame.read stream = (.ok payload, rest)) :
    serve store stream = do return Served.ofResponse rest (← respond store payload) := by
  -- Both ways to a response end in writing it.
  have hwrite : ∀ response : Response,
      (match Frame.write response.toBytes with
        | .ok frame => pure { outcome := .ok (), written := frame, unread := rest }
        | .error error => pure { outcome := .error error, written := [], unread := rest } :
          StateM σ Served) = pure (Served.ofResponse rest response) := by
    intro response
    unfold Served.ofResponse
    cases Frame.write response.toBytes <;> rfl
  unfold serve respond
  rw [h]
  dsimp only
  cases Request.ofBytes? payload with
  | none => exact hwrite .error
  | some request => exact congrArg (request.answer store >>= ·) (funext hwrite)

/-- What comes of serving a stream is what comes of serving its first frame. -/
theorem serve_first {stream frame payload rest : Bytes}
    (h : Frame.read stream = (.ok payload, rest)) (hframe : Frame.read frame = (.ok payload, []))
    (cache : Cache) :
    (serve PasswordStore.cache stream cache).2 = (serve PasswordStore.cache frame cache).2 ∧
      (serve PasswordStore.cache stream cache).1.written =
        (serve PasswordStore.cache frame cache).1.written := by
  rw [serve_of_read PasswordStore.cache h, serve_of_read PasswordStore.cache hframe]
  refine ⟨rfl, ?_⟩
  show (Served.ofResponse rest _).written = (Served.ofResponse [] _).written
  unfold Served.ofResponse
  split <;> rfl

/-- Serving a stream that does not start with a whole frame. -/
theorem serve_of_read_error {σ : Type} (store : PasswordStore σ) {stream rest : Bytes}
    {error : AgentError} (h : Frame.read stream = (.error error, rest)) :
    serve store stream = pure { outcome := .error error, written := [], unread := rest } := by
  unfold serve
  rw [h]

/-- An answer that fits a frame is written. -/
theorem Served.ofResponse_of_le {response : Response} (unread : Bytes)
    (h : response.toBytes.length ≤ Frame.maxSize) :
    ofResponse unread response =
      { outcome := .ok ()
        written := Bytes.ofNatBE 2 response.toBytes.length ++ response.toBytes
        unread } := by
  rw [ofResponse, Frame.write_eq_ok h]

/-- An answer that fits no frame is not. -/
theorem Served.ofResponse_of_lt {response : Response} (unread : Bytes)
    (h : Frame.maxSize < response.toBytes.length) :
    ofResponse unread response =
      { outcome := .error (.tooLarge response.toBytes.length), written := [], unread } := by
  rw [ofResponse, Frame.write_eq_error h]

/-! ### The cache -/

namespace PasswordStore

/-- What a cache gives. -/
theorem cache_get (name : String) (cache : Cache) :
    (PasswordStore.cache.get name).run cache =
      (cache[name]?.elim (.error (.missing name)) .ok, cache) := by
  have hstate : (getThe Cache : ExceptT AgentError (StateM Cache) Cache).run cache =
      (.ok cache, cache) := rfl
  refine (run_bind_of_ok hstate).trans ?_
  cases cache[name]? <;> rfl

/-- What becomes of a cache that keeps a password. -/
theorem cache_set (name password : String) (cache : Cache) :
    (PasswordStore.cache.set name password).run cache = (.ok (), cache.insert name password) := rfl

/-- What becomes of a cache that forgets a password. -/
theorem cache_reset (name : String) (cache : Cache) :
    (PasswordStore.cache.reset name).run cache = (.ok (), cache.erase name) := rfl

end PasswordStore

/-- What a cache answers, and what becomes of it. -/
theorem Request.answer_cache (request : Request) (cache : Cache) :
    request.answer PasswordStore.cache cache =
      match request.command with
      | .get => (cache[request.name]?.elim .error Response.ok, cache)
      | .set => (.ok "", cache.insert request.name request.data)
      | .reset => (.ok "", cache.erase request.name)
      | .unknown _ => (.error, cache) := by
  unfold answer
  cases request.command with
  | get =>
    have hbind : ∀ k : Except AgentError String → StateM Cache Response,
        ((PasswordStore.cache.get request.name).run >>= k) cache =
          k ((PasswordStore.cache.get request.name).run cache).1
            ((PasswordStore.cache.get request.name).run cache).2 := fun _ => rfl
    refine (hbind _).trans ?_
    rw [PasswordStore.cache_get]
    cases cache[request.name]? <;> rfl
  | _ => rfl

/-! ### The client -/

/-- A client makes of an answer what it means, and leaves what comes after it. -/
theorem Response.read_write_append {response : Response} {frame : Bytes}
    (h : Frame.write response.toBytes = .ok frame) (rest : Bytes) :
    Response.read (frame ++ rest) = (response.result, rest) := by
  rw [Response.read, Frame.read_write h]
  dsimp only
  rw [Response.ofBytes?_toBytes]

theorem Response.read_write {response : Response} {frame : Bytes}
    (h : Frame.write response.toBytes = .ok frame) :
    Response.read frame = (response.result, []) := by
  have hread := Response.read_write_append h []
  rwa [List.append_nil] at hread

end Lockbox
