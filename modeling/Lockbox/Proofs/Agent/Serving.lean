import Lockbox.Proofs.Agent.Exchange
import Lockbox.Proofs.Agent.Frames

namespace Lockbox

/-!
# What one connection does to a cache

A client can send any bytes.  Only one kind of request changes the cache under a name and another
one removes the name; everything else is answered and leaves the cache alone, or is not answered
since there is no whole frame, or the answer fits none.

* `Served.Answers`, `Served.Overflows` — connections on which a response was written, or was not
  because of its size.
* `Request.Effect` — what a request should come to.
* `Request.effect_answer` — that it does.
* `connection_effect` — what any bytes come to; `kept_with_bytes_after` — a request among others.
-/

/-! ### Connections that have been served -/

/-- Was this response written, as one frame and nothing else? -/
def Served.Answers (served : Served) (response : Response) : Prop :=
  served.outcome = .ok () ∧ Frame.Starts served.written response.toBytes []

/-- Does this response fit no frame, so that nothing was written? -/
def Served.Overflows (served : Served) (response : Response) : Prop :=
  Frame.maxSize < response.toBytes.length ∧
    served.outcome = .error (.tooLarge response.toBytes.length) ∧ served.written = []

namespace Served

/-- A response that is known and fits a frame is written. -/
theorem answers_ofResponse {response : Response} (unread : Bytes)
    (h : response.toBytes.length ≤ Frame.maxSize) :
    (ofResponse unread response).Answers response := by
  rw [ofResponse_of_le unread h]
  exact ⟨rfl, Frame.starts_frame h⟩

/-- One that fits none is not. -/
theorem overflows_ofResponse {response : Response} (unread : Bytes)
    (h : Frame.maxSize < response.toBytes.length) :
    (ofResponse unread response).Overflows response := by
  rw [ofResponse_of_lt unread h]
  exact ⟨h, rfl, rfl⟩

/-- What is left of the stream does not matter to what is written. -/
theorem ofResponse_eq (unread : Bytes) (response : Response) :
    ofResponse unread response = { ofResponse [] response with unread } := by
  unfold ofResponse
  cases Frame.write response.toBytes <;> rfl

end Served

/-! ### Requests -/

/-- What a request should come to: what is served, and the cache before and after it. -/
def Request.Effect (request : Request) (served : Served) (cache next : Cache) : Prop :=
  match request.command with
  | .get => next = cache ∧ (cache[request.name]? = none → served.Answers .error) ∧
      ∀ password, cache[request.name]? = some password →
        if (Response.ok password).toBytes.length ≤ Frame.maxSize then served.Answers (.ok password)
        else served.Overflows (.ok password)
  | .set => served.Answers (.ok "") ∧
      ∀ name, next[name]? = if name = request.name then some request.data else cache[name]?
  | .reset => served.Answers (.ok "") ∧
      ∀ name, next[name]? = if name = request.name then none else cache[name]?
  | .unknown _ => served.Answers .error ∧ next = cache

/-- The two responses without a password always fit a frame. -/
theorem Response.length_le_of_empty {response : Response}
    (h : response = .error ∨ response = .ok "") : response.toBytes.length ≤ Frame.maxSize := by
  rcases h with rfl | rfl
  · rw [length_error]
    decide
  · rw [length_ok]
    decide

/-- What a request comes to. -/
theorem Request.effect_answer (request : Request) (unread : Bytes) (cache : Cache) :
    request.Effect (.ofResponse unread (request.answer PasswordStore.cache cache).1) cache
      (request.answer PasswordStore.cache cache).2 := by
  rw [answer_cache]
  obtain ⟨command, own, data⟩ := request
  cases command with
  | get =>
    refine ⟨rfl, fun hmissing => ?_, fun password hpassword => ?_⟩
    · dsimp only at hmissing ⊢
      rw [hmissing]
      exact Served.answers_ofResponse unread (Response.length_le_of_empty (.inl rfl))
    · dsimp only at hpassword ⊢
      rw [hpassword]
      split
      · rename_i hfits
        exact Served.answers_ofResponse unread hfits
      · rename_i hlong
        exact Served.overflows_ofResponse unread (Nat.lt_of_not_le hlong)
  | set =>
    refine ⟨Served.answers_ofResponse unread (Response.length_le_of_empty (.inr rfl)), ?_⟩
    intro name
    dsimp only
    rw [Std.ExtTreeMap.getElem?_insert]
    simp only [Std.compare_eq_iff_eq, eq_comm (a := name)]
  | reset =>
    refine ⟨Served.answers_ofResponse unread (Response.length_le_of_empty (.inr rfl)), ?_⟩
    intro name
    dsimp only
    rw [Std.ExtTreeMap.getElem?_erase]
    simp only [Std.compare_eq_iff_eq, eq_comm (a := name)]
  | unknown text =>
    exact ⟨Served.answers_ofResponse unread (Response.length_le_of_empty (.inl rfl)), rfl⟩

/-! ### Streams -/

/-- Serving a stream that starts with a whole frame, with the cache that is there. -/
theorem run_serve_of_starts {stream payload rest : Bytes} (h : Frame.Starts stream payload rest)
    (cache : Cache) : serve PasswordStore.cache stream cache =
      (.ofResponse rest (respond PasswordStore.cache payload cache).1,
        (respond PasswordStore.cache payload cache).2) := by
  rw [serve_of_read PasswordStore.cache (Frame.starts_iff_read.mp h)]
  rfl

/-- **What one connection does to a cache.**  Bytes without a whole frame at their start are not
    answered and change nothing.  Otherwise all that matters is the first frame: if it holds no
    request, it is answered with an error and changes nothing; if it holds one, it comes to what
    that request should come to. -/
theorem connection_effect (cache : Cache) (stream : Bytes) :
    let run := serve PasswordStore.cache stream cache
    ((∀ payload rest, ¬ Frame.Starts stream payload rest) →
      run = ({ outcome := .error (.transport .unexpectedEnd), written := [], unread := [] },
        cache)) ∧
    ∀ payload rest, Frame.Starts stream payload rest →
      run.1.unread = rest ∧
      (Request.ofBytes? payload = none → run.1.Answers .error ∧ run.2 = cache) ∧
      (∀ request, Request.ofBytes? payload = some request → request.Effect run.1 cache run.2) ∧
      ∀ other more, Frame.Starts other payload more →
        serve PasswordStore.cache other cache = ({ run.1 with unread := more }, run.2) := by
  intro run
  constructor
  · intro hcut
    have hread := Frame.read_of_not_starts hcut
    show serve PasswordStore.cache stream cache = _
    rw [serve_of_read_error PasswordStore.cache hread]
    rfl
  · intro payload rest hstarts
    have hrun : run = _ := run_serve_of_starts hstarts cache
    rw [hrun]
    refine ⟨?_, fun hnone => ?_, fun request hrequest => ?_, fun other more hother => ?_⟩
    · rw [Served.ofResponse_eq]
    · have hrespond : respond PasswordStore.cache payload cache = (.error, cache) := by
        rw [respond, hnone]
        rfl
      rw [hrespond]
      exact ⟨Served.answers_ofResponse rest (Response.length_le_of_empty (.inl rfl)), rfl⟩
    · have hrespond : respond PasswordStore.cache payload =
          request.answer PasswordStore.cache := by rw [respond, hrequest]
      rw [hrespond]
      exact request.effect_answer rest cache
    · rw [run_serve_of_starts hother, Served.ofResponse_eq more, Served.ofResponse_eq rest]

/-- A password is kept, whatever the client sends after its request. -/
theorem kept_with_bytes_after :
    let payload := (Request.set "k" "p").toBytes
    let stream := Bytes.ofNatBE 2 payload.length ++ payload ++ [9]
    let run := serve PasswordStore.cache stream ∅
    Frame.Starts stream payload [9] ∧ run.1.Answers (.ok "") ∧ run.1.unread = [9] ∧
      run.2["k"]? = some "p" := by
  intro payload stream run
  have htexts : Json.TextUnit.size (Json.TextUnit.ofText "k") = 1 ∧
      Json.TextUnit.size (Json.TextUnit.ofText "p") = 1 := by decide
  have hfits : payload.length ≤ Frame.maxSize := by
    rw [Request.length_toBytes_known (.inr (.inl rfl))]
    simp only [Request.set, htexts]
    decide
  have hstarts : Frame.Starts stream payload [9] :=
    Frame.starts_of_write (Frame.write_eq_ok hfits) [9]
  obtain ⟨hunread, -, heffect, -⟩ := (connection_effect ∅ stream).2 payload [9] hstarts
  obtain ⟨hanswers, hkept⟩ := heffect (.set "k" "p") (Request.ofBytes?_toBytes trivial)
  exact ⟨hstarts, hanswers, hunread, hkept "k"⟩

end Lockbox
