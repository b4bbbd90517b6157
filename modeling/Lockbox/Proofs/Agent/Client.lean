import Lockbox.Proofs.Agent.Exchange

namespace Lockbox

/-!
# The agent as a store

A client that asks an agent over a line has the agent's cache at its other end: whatever is asked,
in whatever order, the answers and the cache are those of the cache asked directly.  Only a request
that fits no frame gets nowhere.

* `Call`, `Call.perform` — what can be asked of a store.
* `Recorded`, `Line.recorded` — a line with a record of what is sent over each of its connections.
* `send_eq_transact` — what is sent for a request, and what comes of it.
* `Call.direct` — what a call over a line should come to.
* `perform_client` — one call over a line.
* `client_agrees_with_cache` — any number of calls over a line.
-/

/-! ### Calls -/

/-- What can be asked of a store. -/
inductive Call
  | get (name : String)
  | set (name password : String)
  | reset (name : String)
  deriving DecidableEq, Repr

namespace Call

/-- What comes of a call: a password only where one was asked for. -/
abbrev Outcome := Except AgentError (Option String)

/-- The request that a client sends for a call. -/
def request : Call → Request
  | get name => .get name
  | set name password => .set name password
  | reset name => .reset name

/-- Asks a store. -/
def perform {σ : Type} (store : PasswordStore σ) : Call → StateM σ Outcome
  | get name => (some <$> store.get name).run
  | set name password => (Functor.map (fun _ => none) (store.set name password)).run
  | reset name => (Functor.map (fun _ => none) (store.reset name)).run

end Call

/-! ### What is sent -/

/-- The state at the other end of a line, with what was sent over each connection, last first. -/
structure Recorded (σ : Type) where
  /-- The state at the other end. -/
  state : σ
  /-- What was sent over each connection, last first. -/
  sent : List Bytes

/-- A line that records what is sent over it. -/
def Line.recorded {σ : Type} (line : Line σ) : Line (Recorded σ) where
  dial := fun record =>
    let (outcome, state) := line.dial record.state
    (outcome, { state, sent := [] :: record.sent })
  exchange sent := fun record =>
    let (reply, state) := line.exchange sent record.state
    (reply, { state, sent := record.sent.modifyHead (· ++ sent) })

namespace Call

/-- What a call over a line should come to: a request that fits no frame is reported and not sent,
    and any other call is that of the cache itself. -/
def direct (call : Call) : StateM (Recorded Cache) Outcome := fun record =>
  let payload := call.request.toBytes
  if Frame.maxSize < payload.length then
    (.error (.tooLarge payload.length), { record with sent := [] :: record.sent })
  else
    let (outcome, state) := call.perform .cache record.state
    (outcome, { state, sent := (Bytes.ofNatBE 2 payload.length ++ payload) :: record.sent })

theorem proper_request (call : Call) : call.request.command.Proper := by
  cases call <;> trivial

theorem length_request (call : Call) :
    call.request.toBytes.length = 41 + Json.TextUnit.size (Json.TextUnit.ofText call.request.name) +
      Json.TextUnit.size (Json.TextUnit.ofText call.request.data) := by
  apply Request.length_toBytes_known
  cases call with
  | get => exact .inl rfl
  | set => exact .inr (.inl rfl)
  | reset => exact .inr (.inr rfl)

end Call

/-! ### One call -/

/-- The passwords of a cache that came in requests which fit a frame. -/
def Cache.Sendable (cache : Cache) : Prop :=
  ∀ name password, cache[name]? = some password →
    (Request.set name password).toBytes.length ≤ Frame.maxSize

namespace Cache

theorem sendable_empty : Sendable ∅ := by
  intro name password h
  simp at h

theorem Sendable.insert {cache : Cache} (h : cache.Sendable) {name password : String}
    (hset : (Request.set name password).toBytes.length ≤ Frame.maxSize) :
    Sendable (Std.ExtTreeMap.insert cache name password) := by
  intro other value hvalue
  rw [Std.ExtTreeMap.getElem?_insert] at hvalue
  split at hvalue
  · rename_i heq
    have hname : name = other := by simpa using heq
    have hpassword : password = value := by simpa using hvalue
    rw [← hname, ← hpassword]
    exact hset
  · exact h other value hvalue

theorem Sendable.erase {cache : Cache} (h : cache.Sendable) (name : String) :
    Sendable (Std.ExtTreeMap.erase cache name) := by
  intro other value hvalue
  rw [Std.ExtTreeMap.getElem?_erase] at hvalue
  split at hvalue
  · simp at hvalue
  · exact h other value hvalue

/-- The answer with a password is never longer than the request that brought it. -/
theorem Sendable.length_ok {cache : Cache} (h : cache.Sendable) {name password : String}
    (hvalue : cache[name]? = some password) :
    (Response.ok password).toBytes.length ≤ Frame.maxSize := by
  have hset := h name password hvalue
  have hlength := (Call.set name password).length_request
  have hok := Response.length_ok password
  simp only [Call.request, Request.set] at hlength hset
  -- Around the password an answer has 32 bytes and a request 41, besides the name.
  omega

/-- The request for a password is shorter than the one that brought it. -/
theorem Sendable.length_get {cache : Cache} (h : cache.Sendable) {name password : String}
    (hvalue : cache[name]? = some password) :
    (Call.get name).request.toBytes.length ≤ Frame.maxSize := by
  have hset := h name password hvalue
  have hlength := (Call.set name password).length_request
  have hempty : Json.TextUnit.size (Json.TextUnit.ofText "") = 0 := by decide
  rw [(Call.get name).length_request]
  simp only [Call.request, Request.set, Request.get] at hset hlength ⊢
  omega

end Cache

/-- What a client gets when its request is sent and so much comes back. -/
theorem send_of_exchange {σ : Type} {line : Line σ} {request : Request} {frame reply : Bytes}
    {state opened next : σ} (hwrite : Frame.write request.toBytes = .ok frame)
    (hdial : line.dial.run state = (.ok (), opened))
    (hexchange : line.exchange frame opened = (reply, next)) :
    (PasswordStore.send line request).run state = ((Response.read reply).1, next) := by
  have hsent : (liftM (line.exchange frame) : ExceptT AgentError (StateM σ) Bytes).run opened =
      (.ok reply, next) := by
    show (Except.ok (line.exchange frame opened).1, (line.exchange frame opened).2) = _
    rw [hexchange]
  have hframe : (liftM (Except.ok frame : Except AgentError Bytes) :
      ExceptT AgentError (StateM σ) Bytes).run opened = (.ok frame, opened) := rfl
  unfold PasswordStore.send
  rw [hwrite, run_bind_of_ok hdial, run_bind_of_ok hframe, run_bind_of_ok hsent]
  rfl

/-- **Sending is a transaction.**  Either the request fits no frame and nothing is sent, or what is
    sent goes over the line, and the result is that of the transaction with what comes back. -/
theorem send_eq_transact {σ : Type} {line : Line σ} (request : Request) {state opened : σ}
    (hdial : line.dial.run state = (.ok (), opened)) :
    ((request.transact []).sent = [] ∧
        (PasswordStore.send line request).run state = ((request.transact []).result, opened)) ∨
      ∃ reply next, (request.transact reply).sent ≠ [] ∧
        line.exchange (request.transact reply).sent opened = (reply, next) ∧
        (PasswordStore.send line request).run state = ((request.transact reply).result, next) := by
  cases hwrite : Frame.write request.toBytes with
  | error error =>
    refine .inl ⟨by rw [Request.transact, hwrite], ?_⟩
    rw [Request.transact, hwrite, PasswordStore.send, hwrite, run_bind_of_ok hdial]
    rfl
  | ok frame =>
    have htransact : ∀ reply, request.transact reply =
        { result := (Response.read reply).1, sent := frame, unread := (Response.read reply).2 } := by
      intro reply
      rw [Request.transact, hwrite]
    have hne : frame ≠ [] := by
      rintro rfl
      exact absurd (congrArg Prod.fst (Frame.read_write hwrite [])) nofun
    refine .inr ⟨(line.exchange frame opened).1, (line.exchange frame opened).2, ?_⟩
    rw [htransact]
    exact ⟨hne, rfl, send_of_exchange hwrite hdial rfl⟩

/-- What serving the frame of a request comes to. -/
theorem serve_request {σ : Type} (store : PasswordStore σ) {request : Request} {frame : Bytes}
    (hproper : request.command.Proper) (hwrite : Frame.write request.toBytes = .ok frame)
    (state : σ) :
    serve store frame state =
      (Served.ofResponse [] (request.answer store state).1, (request.answer store state).2) := by
  have hread := Frame.read_write hwrite []
  rw [List.append_nil] at hread
  have hrespond : respond store request.toBytes = request.answer store := by
    rw [respond, Request.ofBytes?_toBytes hproper]
  rw [serve_of_read store hread, hrespond]
  rfl

/-- What a client gets when its request is answered and the answer fits a frame. -/
theorem send_of_answer {σ : Type} {line : Line σ} {request : Request} {frame : Bytes}
    {response : Response} {state opened next : σ}
    (hwrite : Frame.write request.toBytes = .ok frame)
    (hanswer : response.toBytes.length ≤ Frame.maxSize)
    (hdial : line.dial.run state = (.ok (), opened))
    (hexchange : line.exchange frame opened = ((Served.ofResponse [] response).written, next)) :
    (PasswordStore.send line request).run state = (response.result, next) := by
  rw [send_of_exchange hwrite hdial hexchange, Served.ofResponse_of_le [] hanswer,
    Response.read_write (Frame.write_eq_ok hanswer)]

/-- What a client gets for a request that fits a frame, if the answer does. -/
theorem send_serving {σ : Type} (store : PasswordStore σ) {request : Request}
    (hproper : request.command.Proper) (hfits : request.toBytes.length ≤ Frame.maxSize)
    (state : σ) (hanswer : (request.answer store state).1.toBytes.length ≤ Frame.maxSize) :
    (PasswordStore.send (Line.serving store) request).run state =
      ((request.answer store state).1.result, (request.answer store state).2) := by
  have hwrite := Frame.write_eq_ok hfits
  apply send_of_answer hwrite hanswer rfl
  show ((serve store _ state).1.written, (serve store _ state).2) = _
  rw [serve_request store hproper hwrite]

/-- What a client gets for a request that fits no frame. -/
theorem send_tooLarge {σ : Type} (store : PasswordStore σ) {request : Request}
    (hlong : Frame.maxSize < request.toBytes.length) (state : σ) :
    (PasswordStore.send (Line.serving store) request).run state =
      (.error (.tooLarge request.toBytes.length), state) := by
  unfold PasswordStore.send
  rw [Frame.write_eq_error hlong]
  rfl

/-- The same over a line with a record, which has what was sent. -/
theorem send_serving_recorded {σ : Type} (store : PasswordStore σ) {request : Request}
    (hproper : request.command.Proper) (hfits : request.toBytes.length ≤ Frame.maxSize)
    (record : Recorded σ)
    (hanswer : (request.answer store record.state).1.toBytes.length ≤ Frame.maxSize) :
    (PasswordStore.send (Line.serving store).recorded request).run record =
      ((request.answer store record.state).1.result,
        { state := (request.answer store record.state).2
          sent :=
            (Bytes.ofNatBE 2 request.toBytes.length ++ request.toBytes) :: record.sent }) := by
  have hwrite := Frame.write_eq_ok hfits
  generalize Bytes.ofNatBE 2 request.toBytes.length ++ request.toBytes = frame at hwrite ⊢
  apply send_of_answer hwrite hanswer rfl
  show ((serve store frame record.state).1.written,
    Recorded.mk (serve store frame record.state).2 (frame :: record.sent)) = _
  rw [serve_request store hproper hwrite]

/-- The same over a line with a record, which has nothing of it. -/
theorem send_tooLarge_recorded {σ : Type} (store : PasswordStore σ) {request : Request}
    (hlong : Frame.maxSize < request.toBytes.length) (record : Recorded σ) :
    (PasswordStore.send (Line.serving store).recorded request).run record =
      (.error (.tooLarge request.toBytes.length), { record with sent := [] :: record.sent }) := by
  unfold PasswordStore.send
  rw [Frame.write_eq_error hlong]
  rfl

/-! ### The client -/

/-- What a client gives: a refusal means that there is no password. -/
theorem client_get {σ : Type} (line : Line σ) (name : String) (state : σ) :
    ((PasswordStore.client line).get name).run state =
      match (PasswordStore.send line (.get name)).run state with
      | (.ok password, next) => (.ok password, next)
      | (.error (.rejected _ _), next) => (.error (.missing name), next)
      | (.error error, next) => (.error error, next) := by
  refine (run_tryCatch _ _ state).trans ?_
  rcases (PasswordStore.send line (.get name)).run state with ⟨outcome, next⟩
  cases outcome with
  | ok password => rfl
  | error error => cases error <;> rfl

/-- What comes of a request whose answer has nothing to say. -/
theorem client_discard {σ : Type} (line : Line σ) (request : Request) (state : σ) :
    (Functor.map (fun _ => (none : Option String))
        (discard (PasswordStore.send line request))).run state =
      match (PasswordStore.send line request).run state with
      | (.ok _, next) => (.ok none, next)
      | (.error error, next) => (.error error, next) := by
  have hdiscard : (discard (PasswordStore.send line request)).run state =
      (((PasswordStore.send line request).run state).1.map fun _ => (),
        ((PasswordStore.send line request).run state).2) := run_map _ _ state
  rw [run_map, hdiscard]
  rcases (PasswordStore.send line request).run state with ⟨outcome, next⟩
  cases outcome <;> rfl

/-- What a client makes of what comes back for a call. -/
def Call.outcome : Call → Except AgentError String → Outcome
  | get _, .ok password => .ok (some password)
  | get name, .error (.rejected _ _) => .error (.missing name)
  | _, .ok _ => .ok none
  | _, .error error => .error error

/-- A call is what becomes of its request. -/
theorem perform_eq_of_send {σ : Type} {line : Line σ} {call : Call} {state next : σ}
    {outcome : Except AgentError String}
    (h : (PasswordStore.send line call.request).run state = (outcome, next)) :
    call.perform (PasswordStore.client line) state = (call.outcome outcome, next) := by
  cases call with
  | get name =>
    refine (run_map some _ state).trans ?_
    rw [client_get, show (PasswordStore.send line (.get name)).run state = _ from h]
    cases outcome with
    | ok password => rfl
    | error error => cases error <;> rfl
  | set name password =>
    refine (client_discard line _ state).trans ?_
    rw [show (PasswordStore.send line (.set name password)).run state = _ from h]
    cases outcome <;> rfl
  | reset name =>
    refine (client_discard line _ state).trans ?_
    rw [show (PasswordStore.send line (.reset name)).run state = _ from h]
    cases outcome <;> rfl

/-- What a cache does when it is called itself. -/
theorem perform_cache (call : Call) (cache : Cache) :
    call.perform PasswordStore.cache cache =
      match call with
      | .get name => (cache[name]?.elim (.error (.missing name)) (.ok ∘ some), cache)
      | .set name password => (.ok none, cache.insert name password)
      | .reset name => (.ok none, cache.erase name) := by
  cases call with
  | get name =>
    refine (run_map some _ cache).trans ?_
    rw [PasswordStore.cache_get]
    dsimp only
    cases cache[name]? <;> rfl
  | set name password => rfl
  | reset name => rfl

/-- The answer to a call always fits a frame. -/
theorem length_answer_le {cache : Cache} (h : cache.Sendable) (call : Call) :
    (call.request.answer PasswordStore.cache cache).1.toBytes.length ≤ Frame.maxSize := by
  have hok : (Response.ok "").toBytes.length ≤ Frame.maxSize := by
    rw [Response.length_ok]
    decide
  rw [Request.answer_cache]
  cases call with
  | get name =>
    show (cache[name]?.elim Response.error Response.ok).toBytes.length ≤ _
    cases hname : cache[name]? with
    | none =>
      show Response.error.toBytes.length ≤ _
      rw [Response.length_error]
      decide
    | some password => exact h.length_ok hname
  | set name password => exact hok
  | reset name => exact hok

/-- A call that fits a frame leaves only passwords that came in requests which do. -/
theorem sendable_perform {cache : Cache} (h : cache.Sendable) {call : Call}
    (hfits : call.request.toBytes.length ≤ Frame.maxSize) :
    (call.perform PasswordStore.cache cache).2.Sendable := by
  rw [perform_cache]
  cases call with
  | get name => exact h
  | set name password => exact h.insert hfits
  | reset name => exact h.erase name

/-- One call over a line is what it should come to, and only passwords that fit are kept. -/
theorem perform_client (call : Call) (record : Recorded Cache) (h : record.state.Sendable) :
    call.perform (PasswordStore.client (Line.serving PasswordStore.cache).recorded) record =
        call.direct record ∧
      (call.direct record).2.state.Sendable := by
  by_cases hlong : Frame.maxSize < call.request.toBytes.length
  · have hdirect : call.direct record = (.error (.tooLarge call.request.toBytes.length),
        { record with sent := [] :: record.sent }) := if_pos hlong
    rw [hdirect, perform_eq_of_send (send_tooLarge_recorded PasswordStore.cache hlong record)]
    refine ⟨?_, h⟩
    cases call <;> rfl
  · have hfits := Nat.le_of_not_lt hlong
    have hdirect : call.direct record = ((call.perform PasswordStore.cache record.state).1,
        { state := (call.perform PasswordStore.cache record.state).2
          sent := (Bytes.ofNatBE 2 call.request.toBytes.length ++ call.request.toBytes) ::
            record.sent }) := if_neg hlong
    -- The request arrives as it was sent, and the answer fits a frame, so it arrives as well.
    have hsend := send_serving_recorded PasswordStore.cache call.proper_request hfits record
      (length_answer_le h call)
    rw [hdirect, perform_eq_of_send hsend]
    refine ⟨?_, sendable_perform h hfits⟩
    rw [perform_cache, Request.answer_cache]
    cases call with
    | get name =>
      show (_, Recorded.mk _ _) = (record.state[name]?.elim _ _, _)
      dsimp only [Call.request, Request.get]
      cases record.state[name]? <;> rfl
    | set name password => rfl
    | reset name => rfl

/-- A client gets a password that is in the cache. -/
theorem get_of_cached {record : Recorded Cache} (h : record.state.Sendable) {name password : String}
    (hname : record.state[name]? = some password) :
    ((Call.get name).perform (PasswordStore.client (Line.serving PasswordStore.cache).recorded)
      record).1 = .ok (some password) := by
  have hfits := h.length_get hname
  rw [(perform_client (.get name) record h).1, Call.direct, if_neg (Nat.not_lt.mpr hfits),
    perform_cache]
  simp only [hname]
  rfl

/-! ### Any number of calls -/

/-- **The agent over a line is its cache.**  Calls over a line come to what they should come to, one
    after the other, in what they return, what they send and what they leave in the cache.  Whatever
    password is in the cache then, its answer fits a frame and a client gets it unchanged, and so it
    is with a password that is kept next. -/
theorem client_agrees_with_cache (calls : List Call) :
    let client := PasswordStore.client (Line.serving PasswordStore.cache).recorded
    let run := calls.mapM (Call.perform client) ⟨∅, []⟩
    run = calls.mapM Call.direct ⟨∅, []⟩ ∧
      (∀ name password, run.2.state[name]? = some password →
        (Response.ok password).toBytes.length ≤ Frame.maxSize ∧
          ((Call.get name).perform client run.2).1 = .ok (some password)) ∧
      ∀ name password, ((Call.set name password).perform client run.2).1 = .ok none →
        ((Call.get name).perform client ((Call.set name password).perform client run.2).2).1 =
          .ok (some password) := by
  intro client run
  have hstart : (⟨∅, []⟩ : Recorded Cache).state.Sendable := Cache.sendable_empty
  obtain ⟨hrun, hlast⟩ := mapM_eq_of_invariant
    (fun record : Recorded Cache => record.state.Sendable) perform_client calls hstart
  -- What is kept at the end fits a frame, since it does after every call.
  have hsendable : run.2.state.Sendable := by
    show (calls.mapM (Call.perform client) ⟨∅, []⟩).2.state.Sendable
    rw [hrun]
    exact hlast
  refine ⟨hrun, fun name password hname => ?_, fun name password hset => ?_⟩
  · exact ⟨hsendable.length_ok hname, get_of_cached hsendable hname⟩
  · obtain ⟨hdirect, hnext⟩ := perform_client (.set name password) run.2 hsendable
    rw [← hdirect] at hnext
    apply get_of_cached hnext
    -- A call that succeeded was sent, so the password is in the cache now.
    rw [hdirect, Call.direct] at hset ⊢
    split at hset
    · cases hset
    · rename_i hfits
      rw [if_neg hfits]
      exact Std.ExtTreeMap.getElem?_insert_self

end Lockbox
