import Lockbox.Proofs.Agent.Client
import Lockbox.Proofs.Agent.Frames
import Lockbox.Proofs.Location
import Lockbox.Proofs.Session.Steps

namespace Lockbox

/-!
# Any agent can be asked

What is at the other end of a line need not be an agent.  Whatever comes back for the name of a
container, the client makes one of four things of it; only a password that is not empty is taken,
and everything else is as if there were no agent.

* `Gets` — what a client should get from the bytes that come back.
* `Line.Replies` — a line on which these bytes come back for a request.
* `client_get_iff` — that the client gets what it should.
* `Location.length_get_le` — asking for the password of a container is always possible.
* `any_reply_is_survived` — where the password of a container comes from then.
-/

variable {σ τ : Type}

/-! ### What comes back -/

/-- What a client should get for a name from the bytes that come back. -/
inductive Gets (name : String) (reply : Bytes) : Except AgentError String → Prop
  /-- The data of a response, if all went well. -/
  | given {payload rest : Bytes} {response : Response} (hstarts : Frame.Starts reply payload rest)
      (hresponse : Response.ofBytes? payload = some response) (hcode : response.code = 0) :
      Gets name reply (.ok response.data)
  /-- Nothing, if anything went wrong. -/
  | refused {payload rest : Bytes} {response : Response}
      (hstarts : Frame.Starts reply payload rest)
      (hresponse : Response.ofBytes? payload = some response) (hcode : response.code ≠ 0) :
      Gets name reply (.error (.missing name))
  /-- A whole frame that holds no response. -/
  | malformed {payload rest : Bytes} (hstarts : Frame.Starts reply payload rest)
      (hresponse : Response.ofBytes? payload = none) : Gets name reply (.error .malformed)
  /-- No whole frame. -/
  | cut (hcut : ∀ payload rest, ¬ Frame.Starts reply payload rest) :
      Gets name reply (.error (.transport .unexpectedEnd))

namespace Gets

variable {name : String} {reply other : Bytes} {outcome : Except AgentError String}

/-- A client gets something from whatever comes back. -/
theorem total (name : String) (reply : Bytes) : ∃ outcome, Gets name reply outcome := by
  by_cases hframe : ∃ payload rest, Frame.Starts reply payload rest
  · obtain ⟨payload, rest, hstarts⟩ := hframe
    cases hresponse : Response.ofBytes? payload with
    | none => exact ⟨_, malformed hstarts hresponse⟩
    | some response =>
      by_cases hcode : response.code = 0
      · exact ⟨_, given hstarts hresponse hcode⟩
      · exact ⟨_, refused hstarts hresponse hcode⟩
  · exact ⟨_, cut fun payload rest hstarts => hframe ⟨payload, rest, hstarts⟩⟩

/-- What comes after the first frame does not matter. -/
theorem of_starts {payload rest more : Bytes} (h : Gets name reply outcome)
    (hstarts : Frame.Starts reply payload rest) (hother : Frame.Starts other payload more) :
    Gets name other outcome := by
  cases h with
  | given hown hresponse hcode =>
    obtain ⟨rfl, -⟩ := hown.unique hstarts
    exact given hother hresponse hcode
  | refused hown hresponse hcode =>
    obtain ⟨rfl, -⟩ := hown.unique hstarts
    exact refused hother hresponse hcode
  | malformed hown hresponse =>
    obtain ⟨rfl, -⟩ := hown.unique hstarts
    exact malformed hother hresponse
  | cut hcut => exact absurd hstarts (hcut payload rest)

end Gets

/-! ### The client -/

/-- Do these bytes come back over a line for a request, and leave the other end in this state? -/
def Line.Replies (line : Line σ) (state : σ) (request : Request) (reply : Bytes) (next : σ) :
    Prop :=
  ∃ opened, line.dial.run state = (.ok (), opened) ∧
    line.exchange (Bytes.ofNatBE 2 request.toBytes.length ++ request.toBytes) opened =
      (reply, next)

/-- What a client makes of a whole frame that comes back. -/
theorem Response.read_of_starts {stream payload rest : Bytes}
    (h : Frame.Starts stream payload rest) :
    (Response.read stream).1 = (Response.ofBytes? payload).elim (.error .malformed) result := by
  rw [read, Frame.starts_iff_read.mp h]
  dsimp only
  cases Response.ofBytes? payload <;> rfl

/-- A client gets what it should. -/
theorem client_get_of_gets {line : Line σ} {name : String} {state next : σ} {reply : Bytes}
    {outcome : Except AgentError String}
    (hfits : (Request.get name).toBytes.length ≤ Frame.maxSize)
    (hreplies : line.Replies state (.get name) reply next) (h : Gets name reply outcome) :
    ((PasswordStore.client line).get name).run state = (outcome, next) := by
  obtain ⟨opened, hdial, hexchange⟩ := hreplies
  rw [client_get, send_of_exchange (Frame.write_eq_ok hfits) hdial hexchange]
  cases h with
  | given hstarts hresponse hcode =>
    rw [Response.read_of_starts hstarts, hresponse, Option.elim_some, Response.result,
      if_pos hcode]
  | refused hstarts hresponse hcode =>
    rw [Response.read_of_starts hstarts, hresponse, Option.elim_some, Response.result,
      if_neg hcode]
  | malformed hstarts hresponse => rw [Response.read_of_starts hstarts, hresponse, Option.elim_none]
  | cut hcut => rw [Response.read, Frame.read_of_not_starts hcut]

/-- **What a client gets**, if its request fits a frame. -/
theorem client_get_iff {line : Line σ} {name : String} {state next : σ} {reply : Bytes}
    {outcome : Except AgentError String}
    (hfits : (Request.get name).toBytes.length ≤ Frame.maxSize)
    (hreplies : line.Replies state (.get name) reply next) :
    ((PasswordStore.client line).get name).run state = (outcome, next) ↔
      Gets name reply outcome := by
  constructor
  · intro h
    obtain ⟨gotten, hgets⟩ := Gets.total name reply
    rw [client_get_of_gets hfits hreplies hgets, Prod.mk.injEq] at h
    exact h.1 ▸ hgets
  · exact client_get_of_gets hfits hreplies

/-- The request for the password of a container fits a frame, wherever the container is. -/
theorem Location.length_get_le {workingDirectory : Path} {location name : String}
    (h : fingerprint workingDirectory location = .ok name) :
    (Request.get name).toBytes.length ≤ Frame.maxSize := by
  obtain ⟨text, -, rfl⟩ : ∃ text, canonical workingDirectory location = .ok text ∧
      fingerprintOf text = name := by
    unfold fingerprint at h
    cases hcanonical : canonical workingDirectory location with
    | error fault =>
      rw [hcanonical] at h
      cases h
    | ok text =>
      rw [hcanonical] at h
      exact ⟨text, rfl, Except.ok.inj h⟩
  have hname := Json.TextUnit.size_ofText_le_length (fingerprintOf text)
  have hempty : Json.TextUnit.size (Json.TextUnit.ofText "") = 0 := by decide
  have hmax : Frame.maxSize = 65535 := rfl
  rw [length_fingerprintOf] at hname
  rw [Request.length_toBytes_known (.inl rfl)]
  simp only [Request.get, hempty]
  omega

/-! ### Passwords -/

/-- A question that is answered is shown. -/
theorem Console.shown_ask {console : Console} {question answer : String}
    (h : (console.ask question).1 = .ok answer) :
    (console.ask question).2.shown = console.shown ++ [question] := by
  unfold ask at h ⊢
  split at h
  · cases h
  · rename_i hterminal
    rw [if_neg hterminal]

/-- A terminal that shows what it did before has not answered. -/
theorem Action.run_ask_ne_ok (question given : String) (world : World σ) (store : σ) :
    (ask question).run world ≠ (.ok given, { world with store }) := by
  intro hask
  rw [run_ask, Prod.mk.injEq, mapError_eq_ok] at hask
  obtain ⟨hanswer, hnext⟩ := hask
  have hshown := congrArg (fun next : World σ => next.console.shown) hnext
  dsimp only at hshown
  rw [Console.shown_ask hanswer] at hshown
  exact absurd hshown (by simp)

/-- The password is got without a question where the agent gives it and it is not empty, and nowhere
    else. -/
theorem Action.run_password_eq_ok_iff {agent : PasswordStore σ} {location name given : String}
    {outcome : Except AgentError String} {world : World σ} {store : σ}
    (hname : Location.fingerprint world.files.workingDirectory location = .ok name)
    (hget : (agent.get name).run world.store = (outcome, store)) :
    (password agent location).run world = (.ok given, { world with store }) ↔
      outcome = .ok given ∧ given ≠ "" := by
  constructor
  · intro hrun
    by_cases hnone : ∀ other, outcome = .ok other → other = ""
    · rw [run_password_of_no_get hname hget hnone] at hrun
      exact absurd hrun (run_ask_ne_ok _ given { world with store } store)
    · push Not at hnone
      obtain ⟨other, rfl, hother⟩ := hnone
      rw [run_password_of_get hname hget hother, Prod.mk.injEq, Except.ok.injEq] at hrun
      obtain ⟨rfl, -⟩ := hrun
      exact ⟨rfl, hother⟩
  · rintro ⟨rfl, hgiven⟩
    exact run_password_of_get hname hget hgiven

/-- **Any agent can be asked for a password.**  Whatever comes back for a name, the client gets what
    it should, which depends on the first frame alone.  What it gets for a container is the password
    if it is one and not empty, and nobody is asked then; in all other cases the password is what is
    typed, or that fails. -/
theorem any_reply_is_survived (line : Line σ) (location : String) (world : World σ) :
    let agent := PasswordStore.client line
    let run := (Action.password agent location).run world
    (∀ name reply next, (Request.get name).toBytes.length ≤ Frame.maxSize →
      line.Replies world.store (.get name) reply next →
        (∀ outcome, (agent.get name).run world.store = (outcome, next) ↔
          Gets name reply outcome) ∧
        ∀ (other : Line σ) payload rest more again state last,
          Frame.Starts reply payload rest → Frame.Starts again payload more →
          other.Replies state (.get name) again last →
            (((PasswordStore.client other).get name).run state).1 =
              ((agent.get name).run world.store).1) ∧
    match Location.fingerprint world.files.workingDirectory location with
    | .error _ => run = (Action.ask Question.password).run world
    | .ok name => (Request.get name).toBytes.length ≤ Frame.maxSize ∧
      ∀ reply next, line.Replies world.store (.get name) reply next →
        (∀ given, run = (.ok given, { world with store := next }) ↔
          Gets name reply (.ok given) ∧ given ≠ "") ∧
        ((∀ given, Gets name reply (.ok given) → given = "") →
          run = (Action.ask Question.password).run { world with store := next }) := by
  intro agent run
  constructor
  · intro name reply next hfits hreplies
    refine ⟨fun outcome => client_get_iff hfits hreplies, ?_⟩
    intro other payload rest more again state last hstarts hagain hother
    obtain ⟨outcome, hgets⟩ := Gets.total name reply
    rw [client_get_of_gets hfits hreplies hgets,
      client_get_of_gets hfits hother (hgets.of_starts hstarts hagain)]
  · cases hlocated : Location.fingerprint world.files.workingDirectory location with
    | error fault => exact Action.run_password_of_unlocatable agent hlocated
    | ok name =>
      have hfits := Location.length_get_le hlocated
      refine ⟨hfits, fun reply next hreplies => ?_⟩
      obtain ⟨outcome, hgets⟩ := Gets.total name reply
      have hget := client_get_of_gets hfits hreplies hgets
      -- The client gets one thing only.
      have hunique : ∀ other, outcome = other ↔ Gets name reply other := by
        intro other
        rw [← client_get_iff hfits hreplies, hget, Prod.mk.injEq]
        exact (and_iff_left rfl).symm
      refine ⟨fun given => ?_, fun hnone => ?_⟩
      · rw [← hunique]
        exact Action.run_password_eq_ok_iff hlocated hget
      · refine Action.run_password_of_no_get hlocated hget fun given hgiven => ?_
        exact hnone given ((hunique _).mp hgiven)

/-- A line over which the same comes back each time. -/
def Line.constant (reply : Bytes) : Line Unit where
  dial := pure ()
  exchange _ := pure reply

/-- A password is taken out of what comes back, though there is more, and typed where not even a
    frame does. -/
theorem taken_or_typed :
    ∃ (world : World Unit) (reply : Bytes),
      Frame.Starts (reply ++ [9]) (Response.ok "p").toBytes [9] ∧
      (Action.password (PasswordStore.client (Line.constant (reply ++ [9]))) "c").run world =
        (.ok "p", world) ∧
      (∀ name, Gets name [0] (.error (.transport .unexpectedEnd))) ∧
      (Action.password (PasswordStore.client (Line.constant [0])) "c").run world =
        (Action.ask Question.password).run world := by
  let world : World Unit := { entropy := { stream := fun _ => 0, position := 0 }, store := () }
  have hlocated : Location.fingerprint world.files.workingDirectory "c" =
      .ok (Location.fingerprintOf "/c") := Location.fingerprint_of_local (by decide) (by decide)
  -- The name itself does not matter, and it is long to work out.
  generalize Location.fingerprintOf "/c" = name at hlocated
  have hfits : (Response.ok "p").toBytes.length ≤ Frame.maxSize := by
    have hsize : Json.TextUnit.size (Json.TextUnit.ofText "p") = 1 := by decide
    rw [Response.length_ok, hsize]
    decide
  have hstarts := Frame.starts_of_write (Frame.write_eq_ok hfits) [9]
  have hcut : ∀ payload rest, ¬ Frame.Starts [0] payload rest := by
    rintro payload rest ⟨-, hstream⟩
    exact absurd (congrArg List.length hstream) (by simp)
  obtain ⟨-, htaken⟩ := any_reply_is_survived (Line.constant (_ ++ [9])) "c" world
  obtain ⟨-, htyped⟩ := any_reply_is_survived (Line.constant [0]) "c" world
  rw [hlocated] at htaken htyped
  obtain ⟨-, htaken⟩ := htaken
  obtain ⟨-, htyped⟩ := htyped
  refine ⟨world, _, hstarts, ?_, fun _ => .cut hcut, ?_⟩
  · obtain ⟨hiff, -⟩ := htaken _ () ⟨(), rfl, rfl⟩
    exact (hiff "p").mpr ⟨.given hstarts (Response.ofBytes?_toBytes _) rfl, by decide⟩
  · obtain ⟨-, hnone⟩ := htyped [0] () ⟨(), rfl, rfl⟩
    refine hnone fun given hgiven => ?_
    cases hgiven with
    | given hstarts => exact absurd hstarts (hcut _ _)

end Lockbox
