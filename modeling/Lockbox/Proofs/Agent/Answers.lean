import Lockbox.Proofs.Agent.Exchange

namespace Lockbox

/-!
# Which requests are answered

An agent that starts with an empty cache answers every connection that brings a whole frame, except
where the answer itself fits no frame: a request for a password that is too long.  Such a password
can only have come in a request that does not name the field for the name of the password; in any
other request the fields around a password leave less room for it than an answer does.

* `Answered` — a connection on which one response is written.
* `Oversized` — a request whose answer fits no frame.
* `Request.IsNamed`, `Request.length_answer_le` — requests that bring no such password.
* `Cache.Brought`, `accounted_serve` — where a password in the cache came from.
* `answered_iff_not_oversized` — which connections are answered.
* `Request.inOrder`, `not_every_request_answered` — a request that brings such a password.
-/

/-! ### Answers -/

/-- A connection on which exactly one response was written. -/
def Answered (served : Served) : Prop :=
  served.outcome = .ok () ∧ ∃ payload response,
    Frame.read served.written = (.ok payload, []) ∧ Response.ofBytes? payload = some response

/-- A payload that asks for a password which fits no answer. -/
def Oversized (cache : Cache) (payload : Bytes) : Prop :=
  ∃ request password, Request.ofBytes? payload = some request ∧ request.command = .get ∧
    cache[request.name]? = some password ∧
    Frame.maxSize < (Response.ok password).toBytes.length

/-- The cache of an agent that has served these connections, one after the other. -/
def Cache.afterServing (streams : List Bytes) (cache : Cache) : Cache :=
  streams.foldl (fun cache stream => (serve PasswordStore.cache stream cache).2) cache

theorem answered_ofResponse {response : Response} (unread : Bytes)
    (h : response.toBytes.length ≤ Frame.maxSize) : Answered (.ofResponse unread response) := by
  rw [Served.ofResponse_of_le unread h]
  have hread := Frame.read_write (Frame.write_eq_ok h) []
  rw [List.append_nil] at hread
  exact ⟨rfl, response.toBytes, response, hread, response.ofBytes?_toBytes⟩

/-- The answer to anything but a request for a password that is too long fits a frame. -/
theorem length_respond_le {cache : Cache} {payload : Bytes} (h : ¬ Oversized cache payload) :
    (respond PasswordStore.cache payload cache).1.toBytes.length ≤ Frame.maxSize := by
  have herror : Response.error.toBytes.length ≤ Frame.maxSize := by
    rw [Response.length_error]
    decide
  have hempty : (Response.ok "").toBytes.length ≤ Frame.maxSize := by
    rw [Response.length_ok]
    decide
  unfold respond
  cases hrequest : Request.ofBytes? payload with
  | none => exact herror
  | some request =>
    show (request.answer PasswordStore.cache cache).1.toBytes.length ≤ _
    rw [Request.answer_cache]
    cases hcommand : request.command with
    | get =>
      show (cache[request.name]?.elim Response.error Response.ok).toBytes.length ≤ _
      cases hname : cache[request.name]? with
      | none => exact herror
      | some password =>
        apply Nat.le_of_not_lt
        intro hlong
        exact h ⟨request, password, hrequest, hcommand, hname, hlong⟩
    | set => exact hempty
    | reset => exact hempty
    | unknown text => exact herror

/-- A connection whose answer fits a frame. -/
theorem serve_of_not_oversized {cache : Cache} {stream payload rest : Bytes}
    (h : Frame.read stream = (.ok payload, rest)) (hover : ¬ Oversized cache payload) :
    Answered (serve PasswordStore.cache stream cache).1 ∧
      (serve PasswordStore.cache stream cache).1.unread = rest := by
  have hfits := length_respond_le hover
  rw [serve_of_read PasswordStore.cache h]
  refine ⟨answered_ofResponse rest hfits, ?_⟩
  show (Served.ofResponse rest (respond PasswordStore.cache payload cache).1).unread = rest
  rw [Served.ofResponse_of_le rest hfits]

/-- A connection whose answer fits none. -/
theorem serve_of_oversized {cache : Cache} {stream payload rest : Bytes}
    (h : Frame.read stream = (.ok payload, rest)) (hover : Oversized cache payload) :
    ∃ name password : String, cache[name]? = some password ∧
      Frame.maxSize < (Response.ok password).toBytes.length ∧
      serve PasswordStore.cache stream cache =
        ({ outcome := .error (.tooLarge (Response.ok password).toBytes.length)
           written := []
           unread := rest }, cache) := by
  obtain ⟨request, password, hrequest, hcommand, hname, hlong⟩ := hover
  have hrespond : respond PasswordStore.cache payload cache = (.ok password, cache) := by
    rw [respond, hrequest]
    show request.answer PasswordStore.cache cache = _
    rw [Request.answer_cache, hcommand]
    simp only [hname]
    rfl
  refine ⟨request.name, password, hname, hlong, ?_⟩
  rw [serve_of_read PasswordStore.cache h, ← Served.ofResponse_of_lt rest hlong]
  show (Served.ofResponse rest (respond PasswordStore.cache payload cache).1,
    (respond PasswordStore.cache payload cache).2) = _
  rw [hrespond]

/-! ### Requests that name their fields -/

/-- A payload that is an object with the field for the name of a password. -/
def Request.IsNamed (payload : Bytes) : Prop :=
  ∃ members units value, Json.parse? payload = some (.object members) ∧
    (units, value) ∈ members ∧ Json.TextUnit.toText? units = some "PwName"

/-- The fields that a request was read from, if it was an object. -/
theorem Request.fields_of_ofJson? {members : List (List Json.TextUnit × Json)} {request : Request}
    (h : ofJson? (.object members) = some request) :
    ∃ named command name data, Json.namedMembers? members = some named ∧
      Json.field? named "Command" = some command ∧ Json.field? named "PwName" = some name ∧
      Json.field? named "PwData" = some data ∧
      (∃ text, Json.required? command = some text ∧ request.command = Command.ofText text) ∧
      Json.optional? name = some request.name ∧ Json.optional? data = some request.data := by
  simp only [ofJson?, Json.fields?, fieldNames, List.mapM_cons, List.mapM_nil, Option.pure_def,
    Option.bind_eq_bind, Option.bind_eq_some_iff, Option.some.injEq] at h
  obtain ⟨values, ⟨named, hnamed, command, hcommand, rest, ⟨name, hname, more, ⟨data, hdata, _, rfl,
    rfl⟩, rfl⟩, rfl⟩, h⟩ := h
  obtain ⟨text, htext, h⟩ := Option.bind_eq_some_iff.mp h
  obtain ⟨nameText, hnameText, h⟩ := Option.bind_eq_some_iff.mp h
  obtain ⟨dataText, hdataText, h⟩ := Option.bind_eq_some_iff.mp h
  obtain rfl := Option.some.inj h
  exact ⟨named, command, name, data, hnamed, hcommand, hname, hdata, ⟨text, htext, rfl⟩, hnameText,
    hdataText⟩

/-- A value that holds a text takes as many bytes as the text, at least. -/
theorem size_tokens_of_string? {value : Json} {s : String} (h : Json.string? value = some s)
    (hread : value.Readable) :
    2 + Json.TextUnit.size (Json.TextUnit.ofText s) ≤ Json.Token.size value.tokens := by
  cases value with
  | text units =>
    have hunits : Json.Token.Readable (.text units) := hread _ (List.mem_singleton_self _)
    have hsize : Json.TextUnit.size (Json.TextUnit.ofText s) ≤ Json.TextUnit.size units :=
      Json.TextUnit.size_ofText_le hunits h
    have htokens : Json.Token.size (Json.text units).tokens = 2 + Json.TextUnit.size units := by
      rw [Json.tokens, Json.Token.size_cons, Json.Token.size_nil, Json.Token.length_spell_text]
      omega
    omega
  | _ => cases h

/-- A password that came in an object with the field for its name fits an answer: the names of the
    three fields take more room than the two of an answer. -/
theorem Request.length_answer_le {payload : Bytes} {request : Request}
    (h : ofBytes? payload = some request) (hnamed : IsNamed payload)
    (hfits : payload.length ≤ Frame.maxSize) :
    (Response.ok request.data).toBytes.length ≤ Frame.maxSize := by
  obtain ⟨members, units, value, hparse, hmem, hunits⟩ := hnamed
  obtain ⟨hread, hsize⟩ := Json.parse?_size hparse
  have hjson : ofJson? (.object members) = some request := by
    rw [ofBytes?, hparse] at h
    exact h
  obtain ⟨named, command, name, data, hmembers, hcommand, hname, hdata, ⟨text, htext, -⟩, hnameText,
    hdataText⟩ := fields_of_ofJson? hjson
  have hmemNamed : ∀ {field : String} {value : Json}, (field, value) ∈ named ↔
      ∃ units, (units, value) ∈ members ∧ Json.TextUnit.toText? units = some field :=
    Json.mem_namedMembers? hmembers
  have hreadValue : ∀ {field : String} {value : Json}, (field, value) ∈ named → value.Readable := by
    intro field value hfield
    obtain ⟨units, hunits, -⟩ := hmemNamed.mp hfield
    exact fun t ht => hread t ((Json.mem_tokens_object hunits).2 t ht)
  have hreadName : ∀ member ∈ members, ∀ u ∈ member.1, u.Readable :=
    fun member hmember => hread _ (Json.mem_tokens_object hmember).1
  rw [Response.length_ok]
  cases data with
  | none =>
    -- Without a password there is nothing that could be too long.
    have hempty : "" = request.data := Option.some.inj hdataText
    rw [← hempty]
    decide
  | some data =>
    cases command with
    | none => cases htext
    | some command =>
      cases name with
      | none =>
        exact absurd (hmemNamed.mpr ⟨units, hmem, hunits⟩) (Json.notMem_of_field? hname value)
      | some name =>
        have hdataSize := size_tokens_of_string? hdataText
          (hreadValue (Json.mem_of_field? hdata))
        -- The three fields are different members of the object, so their sizes add up.
        have hwanted : ∀ want ∈ [("Command", command), ("PwName", name), ("PwData", data)],
            ∃ units, (units, want.2) ∈ members ∧ Json.TextUnit.toText? units = some want.1 := by
          simp only [List.forall_mem_cons, List.not_mem_nil, false_implies, implies_true, and_true]
          exact ⟨hmemNamed.mp (Json.mem_of_field? hcommand),
            hmemNamed.mp (Json.mem_of_field? hname), hmemNamed.mp (Json.mem_of_field? hdata)⟩
        have hnodup : ([("Command", command), ("PwName", name), ("PwData", data)].map
            Prod.fst).Nodup := show fieldNames.Nodup by decide
        have hsum := Json.membersSize_le hreadName hnodup hwanted
        have hobject := Json.membersSize_lt members
        have hnames : Json.TextUnit.size (Json.TextUnit.ofText "Command") = 7 ∧
            Json.TextUnit.size (Json.TextUnit.ofText "PwName") = 6 ∧
            Json.TextUnit.size (Json.TextUnit.ofText "PwData") = 6 := by decide
        simp only [List.map_cons, List.map_nil, Json.membersSize, hnames] at hsum
        omega

/-! ### Where passwords come from -/

/-- A password that one of these connections brought in a request without a field for the name. -/
def Cache.Brought (streams : List Bytes) (name password : String) : Prop :=
  ∃ stream ∈ streams, ∃ payload rest, Frame.read stream = (.ok payload, rest) ∧
    Request.ofBytes? payload = some (.set name password) ∧ ¬ Request.IsNamed payload

/-- Every password of a cache fits an answer, unless one of these connections brought it in a
    request without a field for the name. -/
def Cache.Accounted (streams : List Bytes) (cache : Cache) : Prop :=
  ∀ name password, cache[name]? = some password →
    (Response.ok password).toBytes.length ≤ Frame.maxSize ∨ Brought streams name password

namespace Cache

theorem Brought.append {streams : List Bytes} {name password : String}
    (h : Brought streams name password) (more : List Bytes) :
    Brought (streams ++ more) name password := by
  obtain ⟨stream, hmem, hbrought⟩ := h
  exact ⟨stream, List.mem_append_left _ hmem, hbrought⟩

theorem Accounted.append {streams : List Bytes} {cache : Cache} (h : cache.Accounted streams)
    (more : List Bytes) : cache.Accounted (streams ++ more) :=
  fun name password hname => (h name password hname).imp_right (·.append more)

/-- A password is accounted for by the connection that brings it. -/
theorem accounted_set {streams : List Bytes} {stream payload rest : Bytes} {name password : String}
    (hread : Frame.read stream = (.ok payload, rest))
    (hset : Request.ofBytes? payload = some (.set name password)) :
    (Response.ok password).toBytes.length ≤ Frame.maxSize ∨
      Brought (streams ++ [stream]) name password := by
  by_cases hnamed : Request.IsNamed payload
  · have hfits := Request.length_answer_le hset hnamed (Frame.length_le_of_read hread)
    have hdata : (Request.set name password).data = password := rfl
    rw [hdata] at hfits
    exact .inl hfits
  · exact .inr ⟨stream, by simp, payload, rest, hread, hset, hnamed⟩

/-- Serving one more connection leaves a cache that is accounted for. -/
theorem accounted_serve {streams : List Bytes} {cache : Cache} (h : cache.Accounted streams)
    (stream : Bytes) :
    Accounted (streams ++ [stream]) (serve PasswordStore.cache stream cache).2 := by
  have hkeep := h.append [stream]
  rcases hread : Frame.read stream with ⟨outcome, rest⟩
  cases outcome with
  | error error =>
    rw [serve_of_read_error PasswordStore.cache hread]
    exact hkeep
  | ok payload =>
    rw [serve_of_read PasswordStore.cache hread]
    show Accounted _ (respond PasswordStore.cache payload cache).2
    unfold respond
    cases hrequest : Request.ofBytes? payload with
    | none => exact hkeep
    | some request =>
      show Accounted _ (request.answer PasswordStore.cache cache).2
      rw [Request.answer_cache]
      obtain ⟨command, name, data⟩ := request
      cases command with
      | get => exact hkeep
      | unknown text => exact hkeep
      -- Only this command brings a password, and it is accounted for by the connection.
      | set =>
        intro other password hother
        dsimp only at hother
        rw [Std.ExtTreeMap.getElem?_insert] at hother
        split at hother
        · rename_i heq
          obtain rfl : name = other := by simpa using heq
          obtain rfl : data = password := by simpa using hother
          exact accounted_set hread hrequest
        · exact hkeep other password hother
      | reset =>
        intro other password hother
        dsimp only at hother
        rw [Std.ExtTreeMap.getElem?_erase] at hother
        split at hother
        · simp at hother
        · exact hkeep other password hother

/-- So does serving any number of connections. -/
theorem accounted_afterServing {before : List Bytes} {cache : Cache} (h : cache.Accounted before)
    (streams : List Bytes) : Accounted (before ++ streams) (cache.afterServing streams) := by
  -- On the connections; those served before are arbitrary, since each step adds to them.
  induction streams generalizing before cache with
  | nil =>
    rw [List.append_nil]
    exact h
  | cons stream streams ih =>
    have hnext := ih (accounted_serve h stream)
    rw [List.append_assoc] at hnext
    exact hnext

theorem accounted_empty : Accounted [] ∅ := by
  intro name password h
  simp at h

end Cache

/-! ### Which connections are answered -/

/-- **A connection is answered unless the answer fits no frame.**  Of an agent that started with an
    empty cache and served any connections, every connection that brings a whole frame gets exactly
    one response, except if it asks for a password that fits no answer.  Then nothing is written and
    nothing changes, and the password was brought by an earlier connection, in a request without a
    field for the name. -/
theorem answered_iff_not_oversized (streams : List Bytes) {stream payload rest : Bytes}
    (h : Frame.read stream = (.ok payload, rest)) :
    let cache := Cache.afterServing streams ∅
    let run := serve PasswordStore.cache stream cache
    (Answered run.1 ↔ ¬ Oversized cache payload) ∧ run.1.unread = rest ∧
      (Oversized cache payload → run.1.written = [] ∧ run.2 = cache ∧
        ∃ name password, cache[name]? = some password ∧ Cache.Brought streams name password ∧
          run.1.outcome = .error (.tooLarge (Response.ok password).toBytes.length)) := by
  intro cache run
  by_cases hover : Oversized cache payload
  · obtain ⟨name, password, hname, hlong, hserve⟩ := serve_of_oversized h hover
    have haccounted := Cache.accounted_afterServing Cache.accounted_empty streams
    have hbrought := (haccounted name password hname).resolve_left (Nat.not_le.mpr hlong)
    have hrun : run = _ := hserve
    rw [hrun]
    have hsilent : ¬ Answered { outcome := .error (.tooLarge (Response.ok password).toBytes.length)
                                written := []
                                unread := rest } := fun hanswered => nomatch hanswered.1
    exact ⟨⟨fun hanswered => absurd hanswered hsilent, fun hfits => absurd hover hfits⟩, rfl,
      fun _ => ⟨rfl, rfl, name, password, hname, hbrought, rfl⟩⟩
  · obtain ⟨hanswered, hrest⟩ := serve_of_not_oversized h hover
    exact ⟨⟨fun _ => hover, fun _ => hanswered⟩, hrest, fun hlong => absurd hlong hover⟩

/-- A request that nobody can read is answered. -/
theorem unreadable_answered :
    Frame.read [0, 1, 120, 5] = (.ok [120], [5]) ∧
      Answered (serve PasswordStore.cache [0, 1, 120, 5] (Cache.afterServing [] ∅)).1 := by
  have hread : Frame.read [0, 1, 120, 5] = (.ok [120], [5]) := by simp [Frame.read, Bytes.toNatBE]
  have hunreadable : Request.ofBytes? [120] = none := rfl
  have hfits : ¬ Oversized (Cache.afterServing [] ∅) [120] := by
    rintro ⟨request, password, hrequest, -⟩
    rw [hunreadable] at hrequest
    cases hrequest
  exact ⟨hread, (answered_iff_not_oversized [] hread).1.mpr hfits⟩

/-! ### A password that fits no answer -/

/-- A request to keep a password that has its fields in order instead of by name. -/
def Request.inOrder (name password : String) : Json :=
  .array [Json.ofText "SET", Json.ofText name, Json.ofText password]

namespace Request

theorem readable_inOrder (name password : String) : (inOrder name password).Readable := by
  apply Json.readable_array
  simp only [List.forall_mem_cons, List.not_mem_nil, false_implies, implies_true, and_true]
  exact ⟨Json.readable_ofText _, Json.readable_ofText _, Json.readable_ofText _⟩

/-- It has less around the password than an answer has. -/
theorem length_inOrder (name password : String) :
    ((inOrder name password).print .compact).length =
      13 + Json.TextUnit.size (Json.TextUnit.ofText name) +
        Json.TextUnit.size (Json.TextUnit.ofText password) := by
  have hcommand : Json.TextUnit.size (Json.TextUnit.ofText "SET") = 3 := by decide
  rw [Json.length_print_compact, inOrder]
  simp only [Json.tokens, Json.moreItems, Json.ofText, Json.Token.size_cons, Json.Token.size_append,
    Json.Token.size_nil, Json.Token.length_spell_text, hcommand]
  simp only [Json.Token.spell, List.length_singleton]
  omega

/-- It is a request like any other. -/
theorem ofBytes?_inOrder (name password : String) :
    ofBytes? ((inOrder name password).print .compact) = some (.set name password) := by
  rw [ofBytes?, Json.parse?_print .compact (readable_inOrder name password)]
  show ofJson? (inOrder name password) = _
  have hfields : (inOrder name password).fields? fieldNames =
      some [some (Json.ofText "SET"), some (Json.ofText name), some (Json.ofText password)] := rfl
  rw [ofJson?, hfields]
  simp only [Option.bind_eq_bind, Option.bind_some, Json.required?_ofText, Json.optional?_ofText]
  rfl

end Request

/-- A payload as a frame, whether or not it fits one. -/
def Frame.ofPayload (payload : Bytes) : Bytes := Bytes.ofNatBE 2 payload.length ++ payload

theorem Frame.read_ofPayload {payload : Bytes} (h : payload.length ≤ maxSize) :
    read (ofPayload payload) = (.ok payload, []) := by
  have hread := read_write (write_eq_ok h) []
  rwa [List.append_nil] at hread

namespace Oversized

/-- A text of so many letters. -/
def letters (n : Nat) : String := String.ofList (List.replicate n 'a')

/-- The stream that brings so many letters as the password of `k`. -/
def setStream (n : Nat) : Bytes :=
  Frame.ofPayload ((Request.inOrder "k" (letters n)).print .compact)

/-- The stream that asks for the password of `k`. -/
def getStream : Bytes := Frame.ofPayload (Request.get "k").toBytes

theorem size_letters (n : Nat) : Json.TextUnit.size (Json.TextUnit.ofText (letters n)) = n := by
  rw [Json.TextUnit.ofText, letters, Bytes.ofText_ofList]
  induction n with
  | zero => rfl
  | succ n ih =>
    have hletter : Json.TextUnit.size
        ((String.utf8EncodeChar 'a').map Json.TextUnit.ofByte) = 1 := by decide
    rw [List.replicate_succ, List.flatMap_cons, List.map_append, Json.TextUnit.size_append, ih,
      hletter]
    omega

theorem read_getStream : Frame.read getStream = (.ok (Request.get "k").toBytes, []) := by
  apply Frame.read_ofPayload
  have htexts : Json.TextUnit.size (Json.TextUnit.ofText "k") = 1 ∧
      Json.TextUnit.size (Json.TextUnit.ofText "") = 0 := by decide
  rw [Request.length_toBytes_known (.inl rfl)]
  simp only [Request.get, htexts]
  decide

/-- A connection that brings a password of so many letters. -/
theorem serve_setStream {n : Nat} (h : 14 + n ≤ Frame.maxSize) :
    (serve PasswordStore.cache (setStream n) ∅).2 =
      Std.ExtTreeMap.insert (∅ : Cache) "k" (letters n) := by
  have hfits : ((Request.inOrder "k" (letters n)).print .compact).length ≤ Frame.maxSize := by
    have hname : Json.TextUnit.size (Json.TextUnit.ofText "k") = 1 := by decide
    rw [Request.length_inOrder, hname, size_letters]
    exact h
  rw [setStream, serve_of_read PasswordStore.cache (Frame.read_ofPayload hfits)]
  show (respond PasswordStore.cache _ ∅).2 = _
  rw [respond, Request.ofBytes?_inOrder]
  show ((Request.set "k" (letters n)).answer PasswordStore.cache ∅).2 = _
  rw [Request.answer_cache]
  rfl

/-- Asking for a password that is too long for an answer and yet not for a request. -/
theorem getStream_not_answered {n : Nat} (h : 14 + n ≤ Frame.maxSize)
    (hlong : Frame.maxSize < 32 + n) :
    ¬ Answered (serve PasswordStore.cache getStream (Cache.afterServing [setStream n] ∅)).1 := by
  have hcache : Cache.afterServing [setStream n] ∅ =
      Std.ExtTreeMap.insert (∅ : Cache) "k" (letters n) := serve_setStream h
  have hover : Oversized (Cache.afterServing [setStream n] ∅) (Request.get "k").toBytes := by
    refine ⟨.get "k", letters n, Request.ofBytes?_toBytes trivial, rfl, ?_, ?_⟩
    · rw [hcache]
      exact Std.ExtTreeMap.getElem?_insert_self
    · rw [Response.length_ok, size_letters]
      exact hlong
  obtain ⟨name, password, -, -, hserve⟩ := serve_of_oversized read_getStream hover
  rw [hserve]
  exact fun hanswered => nomatch hanswered.1

end Oversized

/-- **Not every request is answered**: after 65504 letters have been kept, a client that asks for
    them gets nothing. -/
theorem not_every_request_answered :
    Frame.read Oversized.getStream = (.ok (Request.get "k").toBytes, []) ∧
      ¬ Answered (serve PasswordStore.cache Oversized.getStream
        (Cache.afterServing [Oversized.setStream 65504] ∅)).1 :=
  ⟨Oversized.read_getStream, Oversized.getStream_not_answered (by decide) (by decide)⟩

end Lockbox
