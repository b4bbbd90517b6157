import Lockbox.Proofs.Agent.Answers
import Lockbox.Proofs.Agent.Steps
import Mathlib.Data.List.Nodup

namespace Lockbox

/-!
# Connections one after the other

However the connections of an agent run into each other, what comes of them is what would come of
serving them one after the other, in the order in which their requests are served.  For the cache is
touched only where a request is served, and all else that becomes of a connection concerns it alone.

* `Server.Log`, `Linear` — the requests that have been served, and what they account for.
* `Linear.move`, `linear_of_run?` — one step, and any run.
* `Admitted`, `OneByOne` — what a sequential agent keeps besides.
* `connections_linearize` — what every run comes to.
-/

namespace Server

variable {s t : Server}

/-! ### Requests in order -/

/-- The requests that have been served, in order: the connection of each, and its frame. -/
abbrev Log := List (Nat × Bytes)

namespace Log

/-- The cache once these frames have been served, one after the other. -/
def cache (log : Log) : Cache := Cache.afterServing (log.map Prod.snd) ∅

/-- Is this what is written where the frame of a connection is served in its turn? -/
def Responds (log : Log) (i : Nat) (reply : Bytes) : Prop :=
  ∃ before frame after, log = before ++ (i, frame) :: after ∧
    (serve PasswordStore.cache frame (cache before)).1.written = reply

/-- Does the log say how far a connection has got? -/
def Explains (log : Log) (i : Nat) : Progress → Prop
  | .queued | .reading => i ∉ log.map Prod.fst
  | .writing written rest => log.Responds i (written ++ rest)
  | .closed reply => log.Responds i reply
  | .dropped written =>
    i ∉ log.map Prod.fst ∧ written = [] ∨ ∃ rest, log.Responds i (written ++ rest)

variable {log : Log} {i : Nat}

theorem cache_concat (log : Log) (i : Nat) (frame : Bytes) :
    cache (log ++ [(i, frame)]) = (serve PasswordStore.cache frame log.cache).2 := by
  rw [cache, List.map_append, Cache.afterServing, List.foldl_append]
  rfl

/-- What is served in its turn is not served otherwise when more is served later. -/
theorem Responds.append {reply : Bytes} (h : log.Responds i reply) (more : Log) :
    Responds (log ++ more) i reply := by
  obtain ⟨before, frame, after, rfl, hreply⟩ := h
  exact ⟨before, frame, after ++ more, by rw [List.append_assoc, List.cons_append], hreply⟩

theorem Responds.mem {reply : Bytes} (h : log.Responds i reply) : i ∈ log.map Prod.fst := by
  obtain ⟨before, frame, after, rfl, -⟩ := h
  simp

/-- What is served last. -/
theorem responds_concat (log : Log) (i : Nat) (frame : Bytes) :
    Responds (log ++ [(i, frame)]) i
      (serve PasswordStore.cache frame log.cache).1.written := ⟨log, frame, [], rfl, rfl⟩

/-- A connection that gets further without its request being served. -/
theorem Explains.goes {p q : Progress} (h : log.Explains i p) (hgoes : p.Goes q) :
    log.Explains i q := by
  cases hgoes with
  | stay => exact h
  | write written part rest =>
    show log.Responds i (written ++ part ++ rest)
    rw [List.append_assoc]
    exact h
  | close reply =>
    have hreply : log.Responds i (reply ++ []) := h
    rwa [List.append_nil] at hreply
  | giveUp => exact .inl ⟨h, rfl⟩
  | breakOff written rest => exact .inr ⟨rest, h⟩

/-- A connection does not notice that the request of another one is served. -/
theorem Explains.concat {p : Progress} (h : log.Explains i p) {j : Nat} (hne : i ≠ j)
    (frame : Bytes) : Explains (log ++ [(j, frame)]) i p := by
  have hnot : i ∉ log.map Prod.fst → i ∉ (log ++ [(j, frame)]).map Prod.fst := by
    intro hi
    rw [List.map_append, List.mem_append, not_or]
    exact ⟨hi, by simpa using hne⟩
  cases p with
  | queued => exact hnot h
  | reading => exact hnot h
  | writing written rest => exact Responds.append h _
  | closed reply => exact Responds.append h _
  | dropped written =>
    rcases h with ⟨hi, hwritten⟩ | ⟨rest, hreply⟩
    · exact .inl ⟨hnot hi, hwritten⟩
    · exact .inr ⟨rest, hreply.append _⟩

end Log

/-- Is all that an agent has done what serving the requests of a log comes to? -/
structure Linear (log : Log) (s : Server) : Prop where
  /-- Each connection has one request served at most. -/
  nodup : (log.map Prod.fst).Nodup
  /-- The cache is that of the requests in order. -/
  cache : s.cache = log.cache
  /-- Each request is the first frame of its connection. -/
  frames : ∀ {i : Nat} {frame : Bytes}, (i, frame) ∈ log →
    ∃ c, s.connections[i]? = some c ∧ frame <+: c.received ∧ Frame.IsWhole frame
  /-- What has been written is what was to be written. -/
  explains : ∀ {i : Nat} {c : Connection}, s.connections[i]? = some c → log.Explains i c.progress

variable {log : Log}

namespace Linear

theorem start (mode : ServeMode) : Linear [] { mode } where
  nodup := List.nodup_nil
  cache := rfl
  frames h := absurd h List.not_mem_nil
  explains h := by cases h

/-- A connection gets further. -/
theorem update (h : Linear log s) {i : Nat} {c d : Connection} (hc : s.connections[i]? = some c)
    (hreceived : c.received <+: d.received) (hexplains : log.Explains i d.progress) :
    Linear log (s.update i d) where
  nodup := h.nodup
  cache := h.cache
  frames hmem :=
    exists_of_update hc (fun ⟨hfirst, hwhole⟩ => ⟨hfirst.trans hreceived, hwhole⟩) (h.frames hmem)
  explains := by
    intro j other hother
    rcases of_getElem?_update hc hother with ⟨rfl, rfl⟩ | ⟨-, hold⟩
    · exact hexplains
    · exact h.explains hold

/-- There is one more connection. -/
theorem connect (h : Linear log s) :
    Linear log { s with connections := s.connections ++ [{}] } where
  nodup := h.nodup
  cache := h.cache
  frames := by
    intro i frame hmem
    obtain ⟨c, hc, hframe⟩ := h.frames hmem
    exact ⟨c, getElem?_connect hc _, hframe⟩
  explains := by
    intro i c hc
    rcases of_getElem?_connect hc with hold | ⟨hi, rfl⟩
    · exact h.explains hold
    · -- The new connection is not in the log, for all that are in it were there before.
      intro hmem
      obtain ⟨⟨j, frame⟩, hentry, rfl⟩ := List.mem_map.mp hmem
      obtain ⟨old, hold, -⟩ := h.frames hentry
      obtain ⟨hlt, -⟩ := List.getElem?_eq_some_iff.mp hold
      exact Nat.not_lt.mpr hi hlt

/-- A request is served. -/
theorem execute (h : Linear log s) {i : Nat} {c : Connection} {payload rest : Bytes}
    (hc : s.connections[i]? = some c) (hreading : c.progress = .reading)
    (hread : Frame.read c.received = (.ok payload, rest)) :
    ∃ frame, Linear (log ++ [(i, frame)])
      { s.update i
          { c with progress := (serve PasswordStore.cache c.received s.cache).1.progress } with
        cache := (serve PasswordStore.cache c.received s.cache).2 } := by
  obtain ⟨frame, hstream, hframe⟩ := Frame.exists_whole hread
  obtain ⟨hnext, hwritten⟩ := serve_first hread hframe s.cache
  have hnew : i ∉ log.map Prod.fst := by
    have hexplains := h.explains hc
    rw [hreading] at hexplains
    exact hexplains
  refine ⟨frame, ?_, ?_, ?_, ?_⟩
  · rw [List.map_append]
    show (log.map Prod.fst ++ [i]).Nodup
    rw [← List.concat_eq_append]
    exact h.nodup.concat hnew
  · rw [Log.cache_concat, ← h.cache]
    exact hnext
  · intro j other hmem
    show ∃ d, (s.update i _).connections[j]? = some d ∧ _
    rw [getElem?_update hc]
    rcases List.mem_append.mp hmem with hold | hlast
    · obtain ⟨d, hd, hother⟩ := h.frames hold
      have hne : j ≠ i := fun hsame => hnew (List.mem_map.mpr ⟨_, hold, hsame⟩)
      rw [if_neg hne]
      exact ⟨d, hd, hother⟩
    · obtain ⟨rfl, rfl⟩ := Prod.mk.inj (List.mem_singleton.mp hlast)
      rw [if_pos rfl]
      exact ⟨_, rfl, ⟨rest, hstream.symm⟩, payload, hframe⟩
  · intro j d hd
    rcases of_getElem?_update hc hd with ⟨rfl, rfl⟩ | ⟨hne, hold⟩
    · have hreply := Log.responds_concat log j frame
      rw [← h.cache, ← hwritten] at hreply
      show Log.Explains _ _ (Served.progress _)
      unfold Served.progress
      split
      · exact hreply
      · exact .inr ⟨_, hreply⟩
    · exact (h.explains hold).concat hne frame

/-- **One step** is accounted for by the request that it serves, if it serves one. -/
theorem move {e : Event} (h : Linear log s) (hmove : s.Moves e t) :
    ∃ more : Log, more.map Prod.fst = e.executed ∧ Linear (log ++ more) t := by
  cases hmove with
  | phase e phase haccepted hexecuted =>
    refine ⟨[], hexecuted.symm, ?_⟩
    rw [List.append_nil]
    exact ⟨h.nodup, h.cache, h.frames, h.explains⟩
  | connect =>
    refine ⟨[], rfl, ?_⟩
    rw [List.append_nil]
    exact h.connect
  | advance e haccepted hexecuted hc hadvances =>
    refine ⟨[], hexecuted.symm, ?_⟩
    rw [List.append_nil]
    exact h.update hc hadvances.received ((h.explains hc).goes hadvances.progress)
  | accept hc hqueued hbusy =>
    refine ⟨[], rfl, ?_⟩
    rw [List.append_nil]
    refine h.update hc List.prefix_rfl ?_
    have hexplains := h.explains hc
    rw [hqueued] at hexplains
    exact hexplains
  | execute hc hreading hread =>
    obtain ⟨frame, hlinear⟩ := h.execute hc hreading hread
    exact ⟨[(_, frame)], rfl, hlinear⟩

end Linear

/-! ### One connection after the other -/

/-- Has each of these connections been accepted, once? -/
structure Admitted (accepted : List Nat) (s : Server) : Prop where
  nodup : accepted.Nodup
  /-- What has been accepted does not wait. -/
  waits : ∀ {i : Nat}, i ∈ accepted → ∃ c, s.connections[i]? = some c ∧ c.progress ≠ .queued

namespace Admitted

variable {accepted : List Nat}

/-- No connection goes back to waiting. -/
theorem update (h : Admitted accepted s) {i : Nat} {c d : Connection}
    (hc : s.connections[i]? = some c) (hwaits : c.progress ≠ .queued → d.progress ≠ .queued) :
    Admitted accepted (s.update i d) where
  nodup := h.nodup
  waits hj := exists_of_update hc hwaits (h.waits hj)

/-- One step. -/
theorem move {e : Event} (h : Admitted accepted s) (hmove : s.Moves e t) :
    Admitted (accepted ++ e.accepted) t := by
  cases hmove with
  | phase e phase haccepted hexecuted =>
    rw [haccepted, List.append_nil]
    exact ⟨h.nodup, h.waits⟩
  | connect =>
    show Admitted (accepted ++ []) _
    rw [List.append_nil]
    refine ⟨h.nodup, fun {i} hi => ?_⟩
    obtain ⟨c, hc, hprogress⟩ := h.waits hi
    exact ⟨c, getElem?_connect hc _, hprogress⟩
  | advance e haccepted hexecuted hc hadvances =>
    rw [haccepted, List.append_nil]
    refine h.update hc fun hwaits => ?_
    exact hadvances.progress.not_queued hwaits
  | @accept i c hc hqueued hbusy =>
    have hnew : i ∉ accepted := by
      intro hi
      obtain ⟨old, hold, hprogress⟩ := h.waits hi
      rw [hc] at hold
      rw [← Option.some.inj hold] at hprogress
      exact hprogress hqueued
    have hopened : Admitted accepted (s.update i { c with progress := .reading }) :=
      h.update hc fun _ => nofun
    refine ⟨?_, fun {j} hj => ?_⟩
    · show (accepted ++ [i]).Nodup
      rw [← List.concat_eq_append]
      exact h.nodup.concat hnew
    · rcases List.mem_append.mp hj with hold | hlast
      · exact hopened.waits hold
      · rw [List.mem_singleton.mp hlast, getElem?_update hc, if_pos rfl]
        exact ⟨_, rfl, nofun⟩
  | @execute i c payload rest hc hreading hread =>
    show Admitted (accepted ++ []) _
    rw [List.append_nil]
    let served := (serve PasswordStore.cache c.received s.cache).1
    have hserved : Admitted accepted (s.update i { c with progress := served.progress }) :=
      h.update hc fun _ => served.progress_ne_queued
    exact ⟨hserved.nodup, hserved.waits⟩

end Admitted

/-- What a sequential agent keeps: it is busy with the connection that was accepted last, and with
    no other. -/
structure OneByOne (accepted executed : List Nat) (s : Server) : Prop where
  mode : s.mode = .sequential
  /-- Only the last connection that was accepted can be open. -/
  last : ∀ {i : Nat} {c : Connection}, s.connections[i]? = some c → c.isOpen = true →
    accepted.getLast? = some i
  /-- Requests are served in the order in which their connections were accepted. -/
  order : executed.Sublist accepted

/-- The last of a list comes after all that are in order before it. -/
theorem sublist_concat_of_getLast? {l m : List Nat} {i : Nat} (h : l.Sublist m)
    (hlast : m.getLast? = some i) (hi : i ∉ l) : (l ++ [i]).Sublist m := by
  obtain ⟨before, rfl⟩ := List.getLast?_eq_some_iff.mp hlast
  obtain ⟨first, rest, rfl, hfirst, hrest⟩ := List.sublist_append_iff.mp h
  rcases List.sublist_singleton.mp hrest with rfl | rfl
  · rw [List.append_nil]
    exact hfirst.append_right [i]
  · exact absurd (List.mem_append_right first (List.mem_singleton_self i)) hi

namespace OneByOne

variable {accepted executed : List Nat}

theorem start : OneByOne [] [] { mode := .sequential } where
  mode := rfl
  last h := by cases h
  order := List.Sublist.refl []

/-- A connection that is changed is open only if it was before. -/
theorem last_update {i : Nat} {c d : Connection} (h : OneByOne accepted executed s)
    (hc : s.connections[i]? = some c) (hopen : d.isOpen = true → c.isOpen = true) {j : Nat}
    {other : Connection} (hother : (s.update i d).connections[j]? = some other)
    (hotherOpen : other.isOpen = true) : accepted.getLast? = some j := by
  rcases of_getElem?_update hc hother with ⟨rfl, rfl⟩ | ⟨-, hold⟩
  · exact h.last hc (hopen hotherOpen)
  · exact h.last hold hotherOpen

/-- One step, where no request is served twice. -/
theorem move {e : Event} (h : OneByOne accepted executed s) (hmove : s.Moves e t)
    (hnew : ∀ i, e = .execute i → i ∉ executed) :
    OneByOne (accepted ++ e.accepted) (executed ++ e.executed) t := by
  cases hmove with
  | phase e phase haccepted hexecuted =>
    rw [haccepted, hexecuted, List.append_nil, List.append_nil]
    exact ⟨h.mode, h.last, h.order⟩
  | connect =>
    show OneByOne (accepted ++ []) (executed ++ []) _
    rw [List.append_nil, List.append_nil]
    refine ⟨h.mode, fun {i c} hc hopen => ?_, h.order⟩
    rcases of_getElem?_connect hc with hold | ⟨-, rfl⟩
    · exact h.last hold hopen
    · cases hopen
  | advance e haccepted hexecuted hc hadvances =>
    rw [haccepted, hexecuted, List.append_nil, List.append_nil]
    exact ⟨h.mode, h.last_update hc hadvances.isOpen, h.order⟩
  | @accept i c hc hqueued hbusy =>
    show OneByOne (accepted ++ [i]) (executed ++ []) _
    rw [List.append_nil]
    refine ⟨h.mode, fun {j d} hd hopen => ?_, h.order.trans (List.sublist_append_left _ _)⟩
    rw [List.getLast?_concat]
    rcases of_getElem?_update hc hd with ⟨rfl, -⟩ | ⟨-, hold⟩
    · rfl
    · -- The agent is not busy, so no other connection is open.
      unfold isBusy at hbusy
      have hidle := of_decide_eq_false hbusy
      exact absurd ⟨h.mode, List.any_eq_true.mpr ⟨d, List.mem_of_getElem? hold, hopen⟩⟩ hidle
  | @execute i c payload rest hc hreading hread =>
    show OneByOne (accepted ++ []) (executed ++ [i]) _
    rw [List.append_nil]
    have hopen := Connection.isOpen_of_reading hreading
    refine ⟨h.mode, h.last_update hc fun _ => hopen, ?_⟩
    exact sublist_concat_of_getLast? h.order (h.last hc hopen) (hnew _ rfl)

end OneByOne

/-! ### Runs -/

/-- **Any run** is accounted for by the requests that it serves, in the order in which it serves
    them. -/
theorem linear_of_run? {mode : ServeMode} {events : List Event}
    (h : run? { mode } events = some s) :
    ∃ log : Log, log.map Prod.fst = executed events ∧ Linear log s := by
  refine run_induction (P := fun events s => ∃ log : Log,
    log.map Prod.fst = executed events ∧ Linear log s) ⟨[], rfl, .start mode⟩ ?_ h
  rintro events e s t - ⟨log, hlog, hlinear⟩ hmove
  obtain ⟨more, hmore, hnext⟩ := hlinear.move hmove
  exact ⟨log ++ more, by rw [List.map_append, hlog, hmore, executed_concat], hnext⟩

/-- Any run accepts each connection once. -/
theorem admitted_of_run? {mode : ServeMode} {events : List Event}
    (h : run? { mode } events = some s) : Admitted (accepted events) s := by
  refine run_induction (P := fun events s => Admitted (accepted events) s) ⟨List.nodup_nil, ?_⟩ ?_ h
  · exact fun hi => absurd hi List.not_mem_nil
  · intro events e s t _ hadmitted hmove
    rw [accepted_concat]
    exact hadmitted.move hmove

/-- Any run of a sequential agent takes one connection after the other. -/
theorem oneByOne_of_run? {events : List Event} (h : run? { mode := .sequential } events = some s) :
    OneByOne (accepted events) (executed events) s := by
  refine run_induction (P := fun events s => OneByOne (accepted events) (executed events) s)
    .start ?_ h
  intro events e s t hrun horder hmove
  rw [accepted_concat, executed_concat]
  refine horder.move hmove ?_
  rintro i rfl
  -- Only a connection whose request has not been served is served.
  obtain ⟨log, hlog, hlinear⟩ := linear_of_run? hrun
  cases hmove with
  | phase _ _ _ hexecuted => cases hexecuted
  | advance _ _ hexecuted => cases hexecuted
  | execute hc hreading hread =>
    have hexplains := hlinear.explains hc
    rw [hreading, ← hlog] at *
    exact hexplains

/-- What has been written on a connection, as the log has it. -/
theorem Linear.written (h : Linear log s) {i : Nat} {c : Connection}
    (hc : s.connections[i]? = some c) :
    (i ∉ log.map Prod.fst → c.written = []) ∧
      (i ∈ log.map Prod.fst → ∃ reply, log.Responds i reply ∧ c.written <+: reply ∧
        ∀ whole, c.progress = .closed whole → whole = reply) := by
  have hexplains := h.explains hc
  unfold Connection.written
  cases hprogress : c.progress with
  | queued =>
    rw [hprogress] at hexplains
    exact ⟨fun _ => rfl, fun hi => absurd hi hexplains⟩
  | reading =>
    rw [hprogress] at hexplains
    exact ⟨fun _ => rfl, fun hi => absurd hi hexplains⟩
  | writing written rest =>
    rw [hprogress] at hexplains
    have hreply : log.Responds i (written ++ rest) := hexplains
    exact ⟨fun hi => absurd hreply.mem hi,
      fun _ => ⟨_, hreply, List.prefix_append written rest, fun _ => nofun⟩⟩
  | closed reply =>
    rw [hprogress] at hexplains
    have hreply : log.Responds i reply := hexplains
    refine ⟨fun hi => absurd hreply.mem hi, fun _ => ⟨reply, hreply, List.prefix_rfl, ?_⟩⟩
    exact fun whole hwhole => (Progress.closed.inj hwhole).symm
  | dropped written =>
    rw [hprogress] at hexplains
    rcases hexplains with ⟨hi, rfl⟩ | ⟨rest, hreply⟩
    · exact ⟨fun _ => rfl, fun hmem => absurd hmem hi⟩
    · exact ⟨fun hi => absurd hreply.mem hi,
        fun _ => ⟨_, hreply, List.prefix_append written rest, fun _ => nofun⟩⟩

/-- A connection whose first frame is not there yet is not in the log. -/
theorem Linear.notMem (h : Linear log s) {i : Nat} {c : Connection}
    (hc : s.connections[i]? = some c) (hrequest : c.hasRequest = false) :
    i ∉ log.map Prod.fst := by
  intro hi
  obtain ⟨⟨j, frame⟩, hentry, rfl⟩ := List.mem_map.mp hi
  obtain ⟨d, hd, ⟨rest, hreceived⟩, payload, hframe⟩ := h.frames hentry
  obtain rfl := Option.some.inj (hc.symm.trans hd)
  have hread := Frame.read_append hframe rest
  unfold Connection.hasRequest at hrequest
  rw [← hreceived, hread] at hrequest
  cases hrequest

/-- Where a sequential agent serves a request, it is busy with no other connection. -/
theorem alone_of_execute {before after : List Event} {i : Nat}
    (h : run? { mode := .sequential } (before ++ .execute i :: after) = some s) :
    ∃ t, run? { mode := .sequential } before = some t ∧ (accepted before).getLast? = some i ∧
      ∀ j c, j ≠ i → t.connections[j]? = some c → c.isOpen = false := by
  rw [run?_append] at h
  obtain ⟨t, hbefore, hrest⟩ := Option.bind_eq_some_iff.mp h
  rw [← List.singleton_append, run?_append, run?_singleton] at hrest
  obtain ⟨next, hstep, -⟩ := Option.bind_eq_some_iff.mp hrest
  have horder := oneByOne_of_run? hbefore
  obtain ⟨c, hc, hreading⟩ : ∃ c, t.connections[i]? = some c ∧ c.progress = .reading := by
    cases moves_of_step? hstep with
    | phase _ _ _ hexecuted => cases hexecuted
    | advance _ _ hexecuted => cases hexecuted
    | execute hc hreading hread => exact ⟨_, hc, hreading⟩
  have hlast := horder.last hc (Connection.isOpen_of_reading hreading)
  refine ⟨t, hbefore, hlast, fun j d hne hd => ?_⟩
  by_contra hopen
  have hother := horder.last hd (by simpa using hopen)
  exact hne (Option.some.inj (hother.symm.trans hlast))

/-- **However connections interleave, they come to what they come to one after the other.**  In
    every run there is an order in which the agent has served requests: at most one of each
    connection, its first frame.  The cache is that of serving these frames in this order from an
    empty cache, and what has been written on a connection is what serving its frame in its turn
    writes, as a whole if the agent has closed the connection after it, or else the beginning of
    it.  A connection without a whole frame has no part in this.  The order of a sequential agent is
    that in which it accepts connections, and it serves none while another one is open. -/
theorem connections_linearize {mode : ServeMode} {events : List Event} {s : Server}
    (h : run? { mode } events = some s) :
    ∃ log : Log, log.map Prod.fst = executed events ∧ (executed events).Nodup ∧
      s.cache = log.cache ∧
      (∀ i frame, (i, frame) ∈ log →
        ∃ c, s.connections[i]? = some c ∧ frame <+: c.received ∧ Frame.IsWhole frame) ∧
      (∀ i c, s.connections[i]? = some c →
        (i ∈ executed events → ∃ reply, log.Responds i reply ∧ c.written <+: reply ∧
          ∀ whole, c.progress = .closed whole → whole = reply) ∧
        (i ∉ executed events → c.written = []) ∧
        (c.hasRequest = false → i ∉ executed events)) ∧
      (mode = .sequential →
        (accepted events).Nodup ∧ (executed events).Sublist (accepted events) ∧
          ∀ before i after, events = before ++ .execute i :: after →
            ∃ t, run? { mode } before = some t ∧ (accepted before).getLast? = some i ∧
              ∀ j c, j ≠ i → t.connections[j]? = some c → c.isOpen = false) := by
  obtain ⟨log, hlog, hlinear⟩ := linear_of_run? h
  refine ⟨log, hlog, hlog ▸ hlinear.nodup, hlinear.cache, fun i frame => hlinear.frames, ?_, ?_⟩
  · intro i c hc
    rw [← hlog]
    obtain ⟨hnone, hreply⟩ := hlinear.written hc
    exact ⟨hreply, hnone, hlinear.notMem hc⟩
  · rintro rfl
    refine ⟨(admitted_of_run? h).nodup, (oneByOne_of_run? h).order, ?_⟩
    rintro before i after rfl
    exact alone_of_execute h

/-- A client that asks for a password before another client has brought it, but not all at once. -/
def overtaken : List Event :=
  let set := Frame.ofPayload (Request.set "k" "p").toBytes
  let get := Frame.ofPayload (Request.get "k").toBytes
  [.connect, .connect, .deliver 0 (get.take 5), .accept 0, .deliver 1 set, .accept 1, .execute 1,
    .deliver 0 (get.drop 5), .write 1 3, .execute 0, .shutdown, .write 0 100, .close 0, .abandon 1]

/-- The client that came last is served first, and the other one gets the password. -/
theorem overtaken_linearizes :
    ∃ (s : Server) (log : Log), run? { mode := .concurrent } overtaken = some s ∧
      log.map Prod.fst = [1, 0] ∧ s.cache = log.cache ∧
      log.Responds 0 (Frame.ofPayload (Response.ok "p").toBytes) := by
  have hruns : (run? { mode := .concurrent } overtaken).isSome = true := by decide +kernel
  have hcloses : (run? { mode := .concurrent } overtaken).map
      (fun s => s.connections[0]?.map Connection.progress) =
      some (some (.closed (Frame.ofPayload (Response.ok "p").toBytes))) := by decide +kernel
  obtain ⟨s, hrun⟩ := Option.isSome_iff_exists.mp hruns
  rw [hrun] at hcloses
  obtain ⟨c, hc, hclosed⟩ := Option.map_eq_some_iff.mp (Option.some.inj hcloses)
  obtain ⟨log, hlog, -, hcache, -, hconnections, -⟩ := connections_linearize hrun
  obtain ⟨reply, hreply, -, hwhole⟩ := (hconnections 0 c hc).1 (by decide)
  rw [← hwhole _ hclosed] at hreply
  exact ⟨s, log, hrun, hlog, hcache, hreply⟩

end Server

end Lockbox
