import Lockbox.Proofs.Agent.Client

namespace Lockbox.PasswordStore

/-!
# Stores that keep passwords

The cache of an agent and a client that asks the agent keep passwords in the same way, except that
the client refuses what fits no frame.

* `Keeps` — what a store does that keeps passwords in a cache.
* `keeps_cache`, `keeps_client` — the cache itself, and a client of the agent.
* `IsAgent`, `Atomic`, `IsAgent.atomic` — what an agent does to its cache, whatever is in there and
  whether or not it can be reached.
-/

/-- What a store does that keeps passwords in a cache, as long as the cache has a property: it gives
    the passwords that are in the cache and no others, and it keeps or forgets a password or refuses
    to. -/
structure Keeps (store : PasswordStore Cache) (Ready : Cache → Prop) : Prop where
  /-- The empty cache has the property. -/
  ready : Ready ∅
  /-- Asking for a password changes nothing. -/
  get : ∀ (name : String) {cache : Cache}, Ready cache →
    ∃ outcome, (store.get name).run cache = (outcome, cache) ∧
      ∀ password, outcome = .ok password ↔ cache[name]? = some password
  /-- A password is kept, unless the store refuses. -/
  set : ∀ (name password : String) {cache : Cache}, Ready cache →
    (store.set name password).run cache = (.ok (), cache.insert name password) ∧
        Ready (cache.insert name password) ∨
      ∃ error, (store.set name password).run cache = (.error error, cache)
  /-- A password is forgotten, unless the store refuses. -/
  reset : ∀ (name : String) {cache : Cache}, Ready cache →
    (store.reset name).run cache = (.ok (), cache.erase name) ∧ Ready (cache.erase name) ∨
      ∃ error, (store.reset name).run cache = (.error error, cache)

/-- A cache keeps passwords. -/
theorem keeps_cache : PasswordStore.cache.Keeps fun _ => True where
  ready := trivial
  get name cache _ := by
    refine ⟨_, cache_get name cache, fun password => ?_⟩
    cases cache[name]? with
    | none => exact ⟨nofun, nofun⟩
    | some kept =>
      show Except.ok kept = _ ↔ _
      rw [Except.ok.injEq, Option.some.injEq]
  set name password cache _ := .inl ⟨cache_set name password cache, trivial⟩
  reset name cache _ := .inl ⟨cache_reset name cache, trivial⟩

/-! ### The client -/

/-- What a client gets for a call that fits a frame. -/
theorem send_call {cache : Cache} (h : cache.Sendable) {call : Call}
    (hfits : call.request.toBytes.length ≤ Frame.maxSize) :
    (send (.serving .cache) call.request).run cache =
      ((call.request.answer .cache cache).1.result, (call.request.answer .cache cache).2) :=
  send_serving .cache call.proper_request hfits cache (length_answer_le h call)

/-- What comes of a call whose answer has nothing to say. -/
theorem run_discard {σ : Type} {line : Line σ} {request : Request} {state next : σ}
    {outcome : Except AgentError String}
    (h : (send line request).run state = (outcome, next)) :
    (discard (send line request)).run state = (outcome.map fun _ => (), next) := by
  refine (run_map _ _ state).trans ?_
  rw [h]

/-- A client keeps passwords, if all that are in the cache have come to it in a frame. -/
theorem keeps_client : (client (.serving .cache)).Keeps Cache.Sendable where
  ready := Cache.sendable_empty
  get name cache h := by
    by_cases hlong : Frame.maxSize < (Call.get name).request.toBytes.length
    · -- A password whose name fits no frame cannot have come in one.
      refine ⟨.error (.tooLarge (Call.get name).request.toBytes.length), ?_, ?_⟩
      · rw [client_get, show Request.get name = (Call.get name).request from rfl,
          send_tooLarge .cache hlong cache]
      · intro password
        refine ⟨nofun, fun hpassword => ?_⟩
        exact absurd (h.length_get hpassword) (Nat.not_le.mpr hlong)
    · have hsend := send_call h (Nat.le_of_not_lt hlong)
      rw [Request.answer_cache] at hsend
      have hget := client_get (.serving .cache) name cache
      rw [show Request.get name = (Call.get name).request from rfl, hsend] at hget
      dsimp only [Call.request, Request.get] at hget
      cases hname : cache[name]? with
      | none =>
        rw [hname] at hget
        exact ⟨.error (.missing name), hget, fun password => ⟨nofun, nofun⟩⟩
      | some kept =>
        rw [hname] at hget
        refine ⟨.ok kept, hget, fun password => ?_⟩
        rw [Except.ok.injEq, Option.some.injEq]
  set name password cache h := by
    by_cases hlong : Frame.maxSize < (Call.set name password).request.toBytes.length
    · exact .inr ⟨_, run_discard (send_tooLarge .cache hlong cache)⟩
    · have hfits := Nat.le_of_not_lt hlong
      have hsend := send_call h hfits
      rw [Request.answer_cache] at hsend
      exact .inl ⟨run_discard hsend, h.insert hfits⟩
  reset name cache h := by
    by_cases hlong : Frame.maxSize < (Call.reset name).request.toBytes.length
    · exact .inr ⟨_, run_discard (send_tooLarge .cache hlong cache)⟩
    · have hsend := send_call h (Nat.le_of_not_lt hlong)
      rw [Request.answer_cache] at hsend
      exact .inl ⟨run_discard hsend, h.erase name⟩

/-! ### All or nothing -/

/-- A store that is a cache, a client of an agent with one, or one that nobody answers for. -/
def IsAgent (store : PasswordStore Cache) : Prop :=
  store = .cache ∨ store = .client (.serving .cache) ∨ store = .dead Cache

/-- What a store does to a cache: asking changes nothing, and so does a call that fails; any other
    call does what it should. -/
structure Atomic (store : PasswordStore Cache) : Prop where
  /-- Asking for a password changes nothing. -/
  get : ∀ (name : String) (cache : Cache), ((store.get name).run cache).2 = cache
  /-- A password is kept, or the store refuses. -/
  set : ∀ (name password : String) (cache : Cache),
    (store.set name password).run cache = (.ok (), cache.insert name password) ∨
      ∃ error, (store.set name password).run cache = (.error error, cache)
  /-- A password is forgotten, or the store refuses. -/
  reset : ∀ (name : String) (cache : Cache),
    (store.reset name).run cache = (.ok (), cache.erase name) ∨
      ∃ error, (store.reset name).run cache = (.error error, cache)

theorem atomic_cache : PasswordStore.cache.Atomic where
  get name cache := by rw [cache_get]
  set name password cache := .inl (cache_set name password cache)
  reset name cache := .inl (cache_reset name cache)

theorem atomic_dead : (dead Cache).Atomic where
  get _ _ := rfl
  set _ _ _ := .inr ⟨_, rfl⟩
  reset _ _ := .inr ⟨_, rfl⟩

/-- What a client's request leaves of the cache does not depend on whether the answer gets back. -/
theorem send_serving_cache (cache : Cache) {request : Request} (hproper : request.command.Proper)
    (hfits : request.toBytes.length ≤ Frame.maxSize) :
    ((send (.serving .cache) request).run cache).2 = (request.answer .cache cache).2 := by
  have hwrite := Frame.write_eq_ok hfits
  have hserve := serve_request PasswordStore.cache hproper hwrite cache
  have hdial : (Line.serving .cache).dial.run cache = (.ok (), cache) := rfl
  rw [send_of_exchange hwrite hdial rfl]
  exact congrArg Prod.snd hserve

/-- A call whose answer has nothing to say is answered, unless its request fits no frame. -/
theorem discard_send (cache : Cache) {request : Request} (hproper : request.command.Proper)
    {next : Cache} (hanswer : request.answer .cache cache = (.ok "", next)) :
    (discard (send (.serving .cache) request)).run cache = (.ok (), next) ∨
      ∃ error, (discard (send (.serving .cache) request)).run cache = (.error error, cache) := by
  by_cases hlong : Frame.maxSize < request.toBytes.length
  · exact .inr ⟨_, run_discard (send_tooLarge .cache hlong cache)⟩
  · have hempty : (Response.ok "").toBytes.length ≤ Frame.maxSize := by
      rw [Response.length_ok]
      decide
    have hsend := send_serving .cache hproper (Nat.le_of_not_lt hlong) cache
      (by rw [hanswer]; exact hempty)
    rw [hanswer] at hsend
    exact .inl (run_discard hsend)

theorem atomic_client : (client (.serving .cache)).Atomic where
  get name cache := by
    have hsame : ((send (.serving .cache) (.get name)).run cache).2 = cache := by
      by_cases hlong : Frame.maxSize < (Request.get name).toBytes.length
      · rw [send_tooLarge .cache hlong cache]
      · have hproper : (Request.get name).command.Proper := trivial
        rw [send_serving_cache cache hproper (Nat.le_of_not_lt hlong), Request.answer_cache]
        rfl
    rw [client_get]
    rcases hsend : (send (.serving .cache) (.get name)).run cache with ⟨outcome, next⟩
    rw [hsend] at hsame
    -- Whatever comes back, the cache is the one that the request has left.
    rcases outcome with error | password
    · cases error <;> exact hsame
    · exact hsame
  set name password cache := by
    have hproper : (Request.set name password).command.Proper := trivial
    refine discard_send cache hproper ?_
    rw [Request.answer_cache]
    rfl
  reset name cache := by
    have hproper : (Request.reset name).command.Proper := trivial
    refine discard_send cache hproper ?_
    rw [Request.answer_cache]
    rfl

theorem IsAgent.atomic {store : PasswordStore Cache} (h : store.IsAgent) : store.Atomic := by
  rcases h with rfl | rfl | rfl
  · exact atomic_cache
  · exact atomic_client
  · exact atomic_dead

end Lockbox.PasswordStore
