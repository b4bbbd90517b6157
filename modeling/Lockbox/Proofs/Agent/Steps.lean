import Lockbox.Agent.Server
import Lockbox.Proofs.Agent.Exchange
import Mathlib.Data.List.Induction

namespace Lockbox

/-!
# Single steps of an agent

All that can happen to an agent with its connections, said once.  A connection is accepted, its
request is served, or else it gets further on its own; and only where a request is served is the
cache touched.

* `Progress.Goes`, `Connection.Advances` — what can become of a connection once it is accepted, but
  for its request.
* `Server.accepted`, `executed` — the connections that are accepted, and those that are served.
* `Server.Moves`, `moves_of_step?` — all that one step can do.
* `of_getElem?_update`, `of_getElem?_connect` — the connections after a step.
* `run_induction` — what holds after every run.
-/

/-! ### What can become of a connection -/

/-- How far a connection can get at once, after it has been accepted and apart from its request. -/
inductive Progress.Goes : Progress → Progress → Prop
  /-- Nowhere. -/
  | stay (progress : Progress) : Goes progress progress
  /-- A part of the response is written. -/
  | write (written part rest : Bytes) :
      Goes (.writing written (part ++ rest)) (.writing (written ++ part) rest)
  /-- The response has been written. -/
  | close (reply : Bytes) : Goes (.writing reply []) (.closed reply)
  /-- It is given up before the request has been served. -/
  | giveUp : Goes .reading (.dropped [])
  /-- It is given up before the response has been written. -/
  | breakOff (written rest : Bytes) : Goes (.writing written rest) (.dropped written)

/-- No connection goes back to waiting. -/
theorem Progress.Goes.not_queued {p q : Progress} (h : p.Goes q) (hp : p ≠ .queued) :
    q ≠ .queued := by
  cases h with
  | stay => exact hp
  | _ => exact nofun

theorem Served.progress_ne_queued (served : Served) : served.progress ≠ .queued := by
  unfold progress
  split <;> exact nofun

namespace Connection

/-- Has a connection got further, apart from being accepted and being served? -/
structure Advances (c d : Connection) : Prop where
  /-- What has been received stays. -/
  received : c.received <+: d.received
  /-- How far it has got. -/
  progress : c.progress.Goes d.progress

variable {c d : Connection}

theorem isOpen_of_reading (h : c.progress = .reading) : c.isOpen = true := by
  rw [isOpen, h]

/-- No connection is opened that way. -/
theorem Advances.isOpen (h : c.Advances d) (hd : d.isOpen = true) : c.isOpen = true := by
  have hgoes := h.progress
  unfold Connection.isOpen at hd ⊢
  generalize c.progress = p at hgoes ⊢
  generalize d.progress = q at hgoes hd
  cases hgoes with
  | stay => exact hd
  | write written part rest => rfl
  | close reply => cases hd
  | giveUp => cases hd
  | breakOff written rest => cases hd

theorem advances_of_received (h : c.received <+: d.received) (hsame : d.progress = c.progress) :
    c.Advances d := ⟨h, by rw [hsame]; exact .stay _⟩

theorem advances_of_goes {progress : Progress} (h : c.progress.Goes progress) :
    c.Advances { c with progress } := ⟨List.prefix_rfl, h⟩

theorem advances_deliver? {bytes : Bytes} (h : c.deliver? bytes = some d) : c.Advances d := by
  unfold deliver? at h
  split at h
  · cases h
  · obtain rfl := Option.some.inj h
    exact advances_of_received (List.prefix_append _ _) rfl

theorem advances_write? {n : Nat} (h : c.write? n = some d) : c.Advances d := by
  unfold write? at h
  split at h
  · rename_i written rest hprogress
    split at h
    · cases h
    · obtain rfl := Option.some.inj h
      apply advances_of_goes
      have hwrite := Progress.Goes.write written (rest.take n) (rest.drop n)
      rwa [List.take_append_drop, ← hprogress] at hwrite
  · cases h

theorem advances_close? (h : c.close? = some d) : c.Advances d := by
  unfold close? at h
  split at h
  · rename_i written hprogress
    obtain rfl := Option.some.inj h
    apply advances_of_goes
    rw [hprogress]
    exact .close written
  · cases h

theorem advances_drop? (h : c.drop? = some d) : c.Advances d := by
  unfold drop? at h
  split at h
  · rename_i hopen
    obtain rfl := Option.some.inj h
    apply advances_of_goes
    unfold isOpen at hopen
    unfold written
    split at hopen
    · rename_i hprogress
      rw [hprogress]
      exact .giveUp
    · rename_i written rest hprogress
      rw [hprogress]
      exact .breakOff written rest
    · cases hopen
    · cases hopen
    · cases hopen
  · cases h

theorem advances_fail? (h : c.fail? = some d) : c.Advances d := by
  unfold fail? at h
  split at h
  · exact advances_drop? h
  · cases h

end Connection

namespace Server

/-! ### What a step can do -/

/-- The connection that is accepted. -/
def Event.accepted : Event → List Nat
  | .accept i => [i]
  | _ => []

/-- The connection whose request is served. -/
def Event.executed : Event → List Nat
  | .execute i => [i]
  | _ => []

/-- The connections that are accepted, in order. -/
def accepted (events : List Event) : List Nat := events.flatMap Event.accepted

/-- The connections whose requests are served, in order. -/
def executed (events : List Event) : List Nat := events.flatMap Event.executed

/-- All that one step can do. -/
inductive Moves (s : Server) : Event → Server → Prop
  /-- The agent gets further with stopping. -/
  | phase (e : Event) (phase : Phase) (haccepted : e.accepted = []) (hexecuted : e.executed = []) :
      Moves s e { s with phase }
  /-- There is one more connection. -/
  | connect : Moves s .connect { s with connections := s.connections ++ [{}] }
  /-- A connection gets further. -/
  | advance (e : Event) {i : Nat} {c d : Connection} (haccepted : e.accepted = [])
      (hexecuted : e.executed = []) (hc : s.connections[i]? = some c) (h : c.Advances d) :
      Moves s e (s.update i d)
  /-- A connection is accepted. -/
  | accept {i : Nat} {c : Connection} (hc : s.connections[i]? = some c)
      (hqueued : c.progress = .queued) (hbusy : s.isBusy = false) :
      Moves s (.accept i) (s.update i { c with progress := .reading })
  /-- A request is served: the cache is changed, and the response is there to be written. -/
  | execute {i : Nat} {c : Connection} {payload rest : Bytes}
      (hc : s.connections[i]? = some c) (hreading : c.progress = .reading)
      (hread : Frame.read c.received = (.ok payload, rest)) :
      Moves s (.execute i)
        { s.update i
            { c with progress := (serve PasswordStore.cache c.received s.cache).1.progress } with
          cache := (serve PasswordStore.cache c.received s.cache).2 }

variable {s t : Server}

theorem change?_eq_some {i : Nat} {change : Connection → Option Connection} :
    s.change? i change = some t ↔
      ∃ c d, s.connections[i]? = some c ∧ change c = some d ∧ t = s.update i d := by
  unfold change?
  constructor
  · intro h
    obtain ⟨c, hc, h⟩ := Option.bind_eq_some_iff.mp h
    obtain ⟨d, hd, h⟩ := Option.bind_eq_some_iff.mp h
    exact ⟨c, d, hc, hd, (Option.some.inj h).symm⟩
  · rintro ⟨c, d, hc, hd, rfl⟩
    rw [hc]
    show (change c).bind _ = _
    rw [hd]
    rfl

/-- A change that any connection can go through on its own. -/
theorem moves_of_change? {e : Event} {i : Nat} {change : Connection → Option Connection}
    (haccepted : e.accepted = []) (hexecuted : e.executed = [])
    (hchange : ∀ {c d : Connection}, change c = some d → c.Advances d)
    (h : s.change? i change = some t) : s.Moves e t := by
  obtain ⟨c, d, hc, hd, rfl⟩ := change?_eq_some.mp h
  exact .advance e haccepted hexecuted hc (hchange hd)

theorem moves_of_execute? {i : Nat} (h : s.execute? i = some t) : s.Moves (.execute i) t := by
  unfold execute? at h
  obtain ⟨c, hc, h⟩ := Option.bind_eq_some_iff.mp h
  split at h
  · rename_i hready
    obtain ⟨hreading, hrequest⟩ := hready
    obtain ⟨payload, rest, hread⟩ : ∃ payload rest,
        Frame.read c.received = (.ok payload, rest) := by
      unfold Connection.hasRequest at hrequest
      rcases hread : Frame.read c.received with ⟨outcome, rest⟩
      rw [hread] at hrequest
      cases outcome with
      | error error => cases hrequest
      | ok payload => exact ⟨payload, rest, rfl⟩
    obtain rfl := Option.some.inj h
    exact .execute hc hreading hread
  · cases h

/-- **What a step can do.** -/
theorem moves_of_step? {e : Event} (h : s.step? e = some t) : s.Moves e t := by
  cases e with
  | connect =>
    rw [step?] at h
    split at h
    · cases h
    · obtain rfl := Option.some.inj h
      exact .connect
  | deliver i bytes => exact moves_of_change? rfl rfl Connection.advances_deliver? h
  | finish i =>
    refine moves_of_change? rfl rfl ?_ h
    rintro c d ⟨⟩
    exact Connection.advances_of_received List.prefix_rfl rfl
  | vanish i =>
    refine moves_of_change? rfl rfl ?_ h
    rintro c d ⟨⟩
    exact Connection.advances_of_received List.prefix_rfl rfl
  | accept i =>
    rw [step?] at h
    split at h
    · cases h
    · rename_i hfree
      obtain ⟨c, d, hc, hd, rfl⟩ := change?_eq_some.mp h
      unfold Connection.accept? at hd
      split at hd
      · rename_i hqueued
        obtain rfl := Option.some.inj hd
        exact .accept hc hqueued (Bool.eq_false_iff.mpr (not_or.mp hfree).2)
      · cases hd
  | execute i => exact moves_of_execute? h
  | write i n => exact moves_of_change? rfl rfl Connection.advances_write? h
  | close i => exact moves_of_change? rfl rfl Connection.advances_close? h
  | fail i => exact moves_of_change? rfl rfl Connection.advances_fail? h
  | shutdown =>
    obtain rfl := Option.some.inj h
    split
    · exact .phase .shutdown .stopping rfl rfl
    · exact .phase .shutdown s.phase rfl rfl
  | abandon i =>
    rw [step?] at h
    split at h
    · cases h
    · exact moves_of_change? rfl rfl Connection.advances_drop? h
  | stop =>
    rw [step?] at h
    split at h
    · obtain rfl := Option.some.inj h
      exact .phase .stop .stopped rfl rfl
    · cases h

/-! ### The connections after a step -/

/-- The connections once one has been changed. -/
theorem getElem?_update {i : Nat} {c : Connection} (hc : s.connections[i]? = some c)
    (d : Connection) (j : Nat) :
    (s.update i d).connections[j]? = if j = i then some d else s.connections[j]? := by
  obtain ⟨hi, -⟩ := List.getElem?_eq_some_iff.mp hc
  show (s.connections.set i d)[j]? = _
  rw [List.getElem?_set]
  by_cases hsame : j = i
  · rw [if_pos hsame.symm, if_pos hi, if_pos hsame]
  · rw [if_neg (Ne.symm hsame), if_neg hsame]

/-- A connection is the one that has been changed, or else it was there before. -/
theorem of_getElem?_update {i j : Nat} {c d new : Connection} (hc : s.connections[i]? = some c)
    (h : (s.update i d).connections[j]? = some new) :
    j = i ∧ new = d ∨ j ≠ i ∧ s.connections[j]? = some new := by
  rw [getElem?_update hc] at h
  split at h
  · exact .inl ⟨‹_›, (Option.some.inj h).symm⟩
  · exact .inr ⟨‹_›, h⟩

/-- A connection that is there stays where it is changed, and where it is not. -/
theorem exists_of_update {i j : Nat} {c d : Connection} {P : Connection → Prop}
    (hc : s.connections[i]? = some c) (hchanged : P c → P d)
    (h : ∃ old, s.connections[j]? = some old ∧ P old) :
    ∃ new, (s.update i d).connections[j]? = some new ∧ P new := by
  obtain ⟨old, hold, hP⟩ := h
  rw [getElem?_update hc]
  split
  · rename_i hsame
    rw [hsame, hc] at hold
    rw [← Option.some.inj hold] at hP
    exact ⟨d, rfl, hchanged hP⟩
  · exact ⟨old, hold, hP⟩

/-- A connection is a new one, or else it was there before. -/
theorem of_getElem?_connect {i : Nat} {c new : Connection}
    (h : (s.connections ++ [new])[i]? = some c) :
    s.connections[i]? = some c ∨ s.connections.length ≤ i ∧ c = new := by
  rcases Nat.lt_or_ge i s.connections.length with hi | hi
  · rw [List.getElem?_append_left hi] at h
    exact .inl h
  · rw [List.getElem?_append_right hi, List.getElem?_singleton] at h
    split at h
    · exact .inr ⟨hi, (Option.some.inj h).symm⟩
    · cases h

/-- A connection that is there stays where there is one more. -/
theorem getElem?_connect {i : Nat} {c : Connection} (h : s.connections[i]? = some c)
    (new : Connection) : (s.connections ++ [new])[i]? = some c := by
  obtain ⟨hi, -⟩ := List.getElem?_eq_some_iff.mp h
  rw [List.getElem?_append_left hi, h]

/-! ### Runs -/

/-- Events that happen after others. -/
theorem run?_append (s : Server) (before after : List Event) :
    s.run? (before ++ after) = (s.run? before).bind (·.run? after) := List.foldlM_append

theorem run?_singleton (s : Server) (e : Event) : s.run? [e] = s.step? e := by
  unfold run?
  rw [List.foldlM_cons]
  cases s.step? e <;> rfl

theorem accepted_concat (events : List Event) (e : Event) :
    accepted (events ++ [e]) = accepted events ++ e.accepted := by
  simp [accepted]

theorem executed_concat (events : List Event) (e : Event) :
    executed (events ++ [e]) = executed events ++ e.executed := by
  simp [executed]

/-- What holds at first, and after one more event wherever it holds, holds after every run. -/
theorem run_induction {mode : ServeMode} {P : List Event → Server → Prop}
    (hstart : P [] { mode })
    (hmove : ∀ {events : List Event} {e : Event} {s t : Server},
      run? { mode } events = some s → P events s → s.Moves e t → P (events ++ [e]) t)
    {events : List Event} (h : run? { mode } events = some s) : P events s := by
  induction events using List.reverseRecOn generalizing s with
  | nil =>
    obtain rfl := Option.some.inj h
    exact hstart
  | append_singleton events e ih =>
    rw [run?_append] at h
    obtain ⟨middle, hbefore, hlast⟩ := Option.bind_eq_some_iff.mp h
    rw [run?_singleton] at hlast
    exact hmove hbefore (ih hbefore) (moves_of_step? hlast)

end Server

end Lockbox
