import Lockbox.Proofs.Agent.Frames
import Lockbox.Proofs.Steps

namespace Lockbox.Frame

/-!
# Framing is unambiguous

Payloads that are written to a stream one after the other are read from it one after the other, in
whatever pieces the stream arrives.  A stream that is cut short gives the payloads that are whole,
and then the failure.

* `writeTo`, `ofPayloads` — payloads as frames on a stream.
* `takeExactly`, `receive`, `receiveMany` — reading a stream that arrives in pieces.
* `receive_flatten`, `flat_receiveMany` — how it is cut into pieces does not matter.
* `readMany_ofPayloads`, `exists_whole_frames` — what is read, and how a stream can be cut short.
* `framing_is_unambiguous` — the two together.
-/

/-! ### Writing -/

/-- Writes a payload at the end of a stream.  A payload that fits no frame leaves it as it was. -/
def writeTo (payload : Bytes) : StateM Bytes (Except AgentError Unit) := fun stream =>
  match write payload with
  | .ok frame => (.ok (), stream ++ frame)
  | .error error => (.error error, stream)

/-- The frames of payloads, one after the other: of each the length in two bytes, the high one
    first, and then the payload. -/
def ofPayloads (payloads : List Bytes) : Bytes :=
  payloads.flatMap fun payload =>
    UInt8.ofNat (payload.length / 256) :: UInt8.ofNat (payload.length % 256) :: payload

theorem ofPayloads_cons (payload : Bytes) (payloads : List Bytes) :
    ofPayloads (payload :: payloads) = ofPayloads [payload] ++ ofPayloads payloads := by
  simp [ofPayloads]

/-- Frames start with the first of them. -/
theorem starts_ofPayloads {payload : Bytes} (h : payload.length ≤ maxSize) (payloads : List Bytes)
    (rest : Bytes) :
    Starts (ofPayloads (payload :: payloads) ++ rest) payload (ofPayloads payloads ++ rest) :=
  ⟨h, by simp [ofPayloads]⟩

theorem writeTo_of_le {payload : Bytes} (h : payload.length ≤ maxSize) (stream : Bytes) :
    writeTo payload stream = (.ok (), stream ++ ofPayloads [payload]) := by
  have hframe : Bytes.ofNatBE 2 payload.length ++ payload = ofPayloads [payload] := by
    rw [(starts_frame h).2]
    simp [ofPayloads]
  rw [writeTo, write_eq_ok h]
  dsimp only
  rw [hframe]

theorem writeTo_of_lt {payload : Bytes} (h : maxSize < payload.length) (stream : Bytes) :
    writeTo payload stream = (.error (.tooLarge payload.length), stream) := by
  rw [writeTo, write_eq_error h]

/-- Payloads that fit frames are written one after the other. -/
theorem mapM_writeTo {payloads : List Bytes} (h : ∀ payload ∈ payloads, payload.length ≤ maxSize)
    (stream : Bytes) :
    payloads.mapM writeTo stream =
      (payloads.map fun _ => .ok (), stream ++ ofPayloads payloads) := by
  induction payloads generalizing stream with
  | nil => simp [ofPayloads]; rfl
  | cons payload payloads ih =>
    obtain ⟨hfirst, hmore⟩ := List.forall_mem_cons.mp h
    rw [mapM_state_cons, writeTo_of_le hfirst, ih hmore, ofPayloads_cons payload payloads,
      ← List.append_assoc]
    rfl

/-! ### Streams that arrive in pieces -/

/-- Takes so many bytes from a stream that arrives in pieces, after those that have been taken.
    An empty piece brings nothing.  What is left of the last piece stays; a stream that ends too
    early is used up. -/
def takeExactly (taken : Bytes) : (size : Nat) → (pieces : List Bytes) → Option Bytes × List Bytes
  | 0, pieces => (some taken, pieces)
  | _ + 1, [] => (none, [])
  | size + 1, piece :: pieces =>
    if size + 1 < piece.length then
      (some (taken ++ piece.take (size + 1)), piece.drop (size + 1) :: pieces)
    else takeExactly (taken ++ piece) (size + 1 - piece.length) pieces

/-- Reads the first payload of a stream that arrives in pieces. -/
def receive (pieces : List Bytes) : Except AgentError Bytes × List Bytes :=
  match takeExactly [] 2 pieces with
  | (none, left) => (.error (.transport .unexpectedEnd), left)
  | (some size, left) =>
    match takeExactly [] (Bytes.toNatBE size) left with
    | (none, left) => (.error (.transport .unexpectedEnd), left)
    | (some payload, left) => (.ok payload, left)

/-- Reads payloads one after the other, at most so many: the payloads, each with the pieces that are
    left after it, and the failure if one ends the reading. -/
def receiveMany : (limit : Nat) → (pieces : List Bytes) →
    List (Bytes × List Bytes) × Option AgentError
  | 0, _ => ([], none)
  | limit + 1, pieces =>
    match receive pieces with
    | (.error error, _) => ([], some error)
    | (.ok payload, left) =>
      ((payload, left) :: (receiveMany limit left).1, (receiveMany limit left).2)

/-- What has been read, with what is left after each payload as one stream. -/
def flat (read : List (Bytes × List Bytes) × Option AgentError) :
    List (Bytes × Bytes) × Option AgentError :=
  (read.1.map fun frame => (frame.1, frame.2.flatten), read.2)

/-- There are enough bytes. -/
theorem takeExactly_of_le {size : Nat} {pieces : List Bytes} (taken : Bytes)
    (h : size ≤ pieces.flatten.length) : ∃ left,
      takeExactly taken size pieces = (some (taken ++ pieces.flatten.take size), left) ∧
        left.flatten = pieces.flatten.drop size := by
  fun_induction takeExactly taken size pieces with
  | case1 taken pieces => exact ⟨pieces, by simp, rfl⟩
  | case2 taken size => simp at h
  | case3 taken size piece pieces hpiece =>
    refine ⟨piece.drop (size + 1) :: pieces, ?_, ?_⟩
    · rw [List.flatten_cons, List.take_append_of_le_length (Nat.le_of_lt hpiece)]
    · rw [List.flatten_cons, List.flatten_cons, List.drop_append_of_le_length (Nat.le_of_lt hpiece)]
  | case4 taken size piece pieces hpiece ih =>
    -- The piece is used up, and the rest is in those that follow.
    have hle : piece.length ≤ size + 1 := Nat.le_of_not_lt hpiece
    rw [List.flatten_cons, List.length_append] at h
    obtain ⟨left, htake, hleft⟩ := ih (by omega)
    refine ⟨left, ?_, ?_⟩
    · rw [htake, List.flatten_cons, List.take_append, List.take_of_length_le hle,
        List.append_assoc]
    · rw [hleft, List.flatten_cons, List.drop_append, List.drop_of_length_le hle, List.nil_append]

/-- The stream ends too early. -/
theorem takeExactly_of_lt {size : Nat} {pieces : List Bytes} (taken : Bytes)
    (h : pieces.flatten.length < size) : takeExactly taken size pieces = (none, []) := by
  fun_induction takeExactly taken size pieces with
  | case1 taken pieces => cases h
  | case2 taken size => rfl
  | case3 taken size piece pieces hpiece =>
    rw [List.flatten_cons, List.length_append] at h
    omega
  | case4 taken size piece pieces hpiece ih =>
    rw [List.flatten_cons, List.length_append] at h
    exact ih (by omega)

/-- In whatever pieces a stream arrives, the same payload is read and the same is left. -/
theorem receive_flatten (pieces : List Bytes) :
    (receive pieces).1 = (read pieces.flatten).1 ∧
      (receive pieces).2.flatten = (read pieces.flatten).2 := by
  unfold receive
  by_cases hshort : pieces.flatten.length < 2
  · -- There is not even a size.
    rw [takeExactly_of_lt [] hshort, read_of_not_starts fun payload rest hstarts => ?_]
    · exact ⟨rfl, rfl⟩
    · rw [hstarts.2, List.length_cons, List.length_cons] at hshort
      omega
  · have hsize : 2 ≤ pieces.flatten.length := Nat.le_of_not_lt hshort
    obtain ⟨left, htake, hleft⟩ := takeExactly_of_le [] hsize
    obtain ⟨high, low, body, hstream⟩ : ∃ high low body, pieces.flatten = high :: low :: body := by
      rcases hstream : pieces.flatten with _ | ⟨high, _ | ⟨low, body⟩⟩
      · simp [hstream] at hsize
      · simp [hstream] at hsize
      · exact ⟨high, low, body, rfl⟩
    rw [hstream] at htake hleft ⊢
    rw [htake]
    have hbody : left.flatten = body := hleft
    simp only [List.nil_append, List.take_succ_cons, List.take_zero, read]
    by_cases hfits : Bytes.toNatBE [high, low] ≤ body.length
    · obtain ⟨after, htake, hafter⟩ := takeExactly_of_le [] (hbody ▸ hfits)
      rw [htake, if_pos hfits, hafter, hbody]
      exact ⟨rfl, rfl⟩
    · rw [takeExactly_of_lt [] (hbody ▸ Nat.lt_of_not_le hfits), if_neg hfits]
      exact ⟨rfl, rfl⟩

/-- Nor does it matter when more is read. -/
theorem flat_receiveMany (limit : Nat) (pieces : List Bytes) :
    flat (receiveMany limit pieces) = readMany limit pieces.flatten := by
  induction limit generalizing pieces with
  | zero => rfl
  | succ limit ih =>
    obtain ⟨hpayload, hleft⟩ := receive_flatten pieces
    rw [receiveMany, readMany]
    cases hreceive : receive pieces with
    | mk outcome left =>
      rw [hreceive] at hpayload hleft
      rw [show read pieces.flatten = (outcome, left.flatten) from
        Prod.ext hpayload.symm hleft.symm]
      cases outcome with
      | error error => rfl
      | ok payload =>
        dsimp only
        rw [← ih]
        rfl

/-! ### Reading -/

/-- Payloads as they are read: each with what is left of the stream after it, where this comes after
    all frames. -/
def readings (rest : Bytes) : List Bytes → List (Bytes × Bytes)
  | [] => []
  | payload :: payloads => (payload, ofPayloads payloads ++ rest) :: readings rest payloads

/-- Frames are read one after the other, and then what comes after them. -/
theorem readMany_ofPayloads {payloads : List Bytes}
    (h : ∀ payload ∈ payloads, payload.length ≤ maxSize) (more : Nat) (rest : Bytes) :
    readMany (payloads.length + more) (ofPayloads payloads ++ rest) =
      (readings rest payloads ++ (readMany more rest).1, (readMany more rest).2) := by
  induction payloads with
  | nil =>
    rw [List.length_nil, Nat.zero_add]
    rfl
  | cons payload payloads ih =>
    obtain ⟨hfirst, hrest⟩ := List.forall_mem_cons.mp h
    rw [List.length_cons, Nat.add_right_comm, readMany,
      starts_iff_read.mp (starts_ofPayloads hfirst payloads rest)]
    dsimp only
    rw [ih hrest]
    rfl

/-- A stream that starts with no whole frame gives nothing but the failure. -/
theorem readMany_of_not_starts {limit : Nat} {stream : Bytes} (hlimit : 0 < limit)
    (h : ∀ payload rest, ¬ Starts stream payload rest) :
    readMany limit stream = ([], some (.transport .unexpectedEnd)) := by
  cases limit with
  | zero => cases hlimit
  | succ limit => rw [readMany, read_of_not_starts h]

/-! ### Cut short -/

/-- A whole frame at the start of a stream that is cut short is the first one of the stream. -/
theorem whole_frame_of_starts {payload : Bytes} (h : payload.length ≤ maxSize)
    {payloads : List Bytes} {cut : Bytes} (hcut : cut <+: ofPayloads (payload :: payloads))
    {other rest : Bytes} (hstarts : Starts cut other rest) : ofPayloads [payload] <+: cut := by
  obtain ⟨more, hmore⟩ := hcut
  have hlonger : Starts (cut ++ more) other (rest ++ more) :=
    starts_iff_read.mpr (read_append (starts_iff_read.mp hstarts) more)
  have hall : Starts (cut ++ more) payload (ofPayloads payloads) := by
    have hframes := starts_ofPayloads h payloads []
    rwa [List.append_nil, List.append_nil, ← hmore] at hframes
  obtain ⟨rfl, -⟩ := hlonger.unique hall
  exact ⟨rest, by rw [hstarts.2]; simp [ofPayloads]⟩

/-- Where frames are cut short there are so many whole ones, and no whole one after them. -/
theorem exists_whole_frames {payloads : List Bytes}
    (h : ∀ payload ∈ payloads, payload.length ≤ maxSize) {cut : Bytes}
    (hcut : cut <+: ofPayloads payloads) : ∃ n rest,
      n ≤ payloads.length ∧ cut = ofPayloads (payloads.take n) ++ rest ∧
        (∀ payload rest', ¬ Starts rest payload rest') ∧
        ∀ i < payloads.length, i < n ↔ ofPayloads (payloads.take (i + 1)) <+: cut := by
  induction payloads generalizing cut with
  | nil =>
    obtain rfl : cut = [] := List.prefix_nil.mp hcut
    exact ⟨0, [], Nat.le_refl 0, rfl, fun _ _ hstarts => (nomatch hstarts.2),
      fun _ hi => nomatch hi⟩
  | cons payload payloads ih =>
    obtain ⟨hfirst, hrest⟩ := List.forall_mem_cons.mp h
    by_cases hwhole : ofPayloads [payload] <+: cut
    · -- The first frame is whole, and the others are cut where the stream is.
      obtain ⟨after, rfl⟩ := hwhole
      rw [ofPayloads_cons payload payloads, List.prefix_append_right_inj] at hcut
      obtain ⟨n, rest, hn, rfl, hnone, hframes⟩ := ih hrest hcut
      refine ⟨n + 1, rest, Nat.succ_le_succ hn, ?_, hnone, fun i hi => ?_⟩
      · rw [List.take_succ_cons, ofPayloads_cons payload (payloads.take n), List.append_assoc]
      · rw [List.take_succ_cons, ofPayloads_cons payload (payloads.take i),
          List.prefix_append_right_inj]
        cases i with
        | zero => simp [ofPayloads]
        | succ i => rw [Nat.succ_lt_succ_iff, hframes i (Nat.lt_of_succ_lt_succ hi)]
    · refine ⟨0, cut, Nat.zero_le _, rfl, fun other rest hstarts => ?_, fun i hi => ?_⟩
      · exact hwhole (whole_frame_of_starts hfirst hcut hstarts)
      · refine iff_of_false (Nat.not_lt_zero i) fun hframes => hwhole ?_
        rw [List.take_succ_cons, ofPayloads_cons payload (payloads.take i)] at hframes
        exact (List.prefix_append _ _).trans hframes

/-- **Framing is unambiguous.**  Payloads that fit frames are all written.  In whatever pieces the
    stream arrives, as many reads give just these payloads and leave what comes after them.  Where
    the stream ends early, reads give the payloads whose frames are whole, and then the failure.
    A payload that fits no frame is refused, and leaves the stream as it was. -/
theorem framing_is_unambiguous (payloads : List Bytes)
    (h : ∀ payload ∈ payloads, payload.length ≤ maxSize) :
    payloads.mapM writeTo [] = (payloads.map fun _ => .ok (), ofPayloads payloads) ∧
    (∀ (rest : Bytes) (pieces : List Bytes), pieces.flatten = ofPayloads payloads ++ rest →
      flat (receiveMany payloads.length pieces) = (readings rest payloads, none)) ∧
    (∀ cut, cut <+: ofPayloads payloads → ∃ n rest,
      n ≤ payloads.length ∧ cut = ofPayloads (payloads.take n) ++ rest ∧
      (∀ i < payloads.length, i < n ↔ ofPayloads (payloads.take (i + 1)) <+: cut) ∧
      ∀ (pieces : List Bytes) (limit : Nat), pieces.flatten = cut → n < limit →
        flat (receiveMany limit pieces) =
          (readings rest (payloads.take n), some (.transport .unexpectedEnd))) ∧
    ∀ (payload stream : Bytes), maxSize < payload.length →
      writeTo payload stream = (.error (.tooLarge payload.length), stream) := by
  refine ⟨mapM_writeTo h [], fun rest pieces hpieces => ?_, fun cut hcut => ?_,
    fun payload stream hlong => writeTo_of_lt hlong stream⟩
  · rw [flat_receiveMany, hpieces]
    exact (readMany_ofPayloads h 0 rest).trans (by rw [readMany, List.append_nil])
  · obtain ⟨n, rest, hn, rfl, hnone, hframes⟩ := exists_whole_frames h hcut
    refine ⟨n, rest, hn, rfl, hframes, fun pieces limit hpieces hlimit => ?_⟩
    -- So many reads give the whole frames, and the next one fails.
    obtain ⟨more, rfl⟩ := Nat.exists_eq_add_of_lt hlimit
    have hfits : ∀ payload ∈ payloads.take n, payload.length ≤ maxSize :=
      fun payload hmem => h payload (List.mem_of_mem_take hmem)
    have hreads := readMany_ofPayloads hfits (more + 1) rest
    rw [List.length_take_of_le hn, readMany_of_not_starts (Nat.succ_pos more) hnone,
      List.append_nil] at hreads
    rw [flat_receiveMany, hpieces]
    exact hreads

/-- Two frames, of which the first has no payload: they arrive in pieces that divide both sizes,
    with a byte after them, and once more without the last byte of the second. -/
theorem two_frames_in_pieces :
    (∀ payload ∈ ([[], [1, 2]] : List Bytes), payload.length ≤ maxSize) ∧
    flat (receiveMany 2 [[0], [0, 0], [2, 1], [], [2, 9]]) =
      ([([], [0, 2, 1, 2, 9]), ([1, 2], [9])], none) ∧
    flat (receiveMany 2 [[0, 0, 0], [2, 1]]) =
      ([([], [0, 2, 1])], some (.transport .unexpectedEnd)) := by
  have hfits : ∀ payload ∈ ([[], [1, 2]] : List Bytes), payload.length ≤ maxSize := by decide
  obtain ⟨-, hall, hcut, -⟩ := framing_is_unambiguous [[], [1, 2]] hfits
  refine ⟨hfits, hall [9] _ rfl, ?_⟩
  obtain ⟨n, rest, hn, heq, hframes, hreads⟩ := hcut [0, 0, 0, 2, 1] (by decide)
  -- The first frame is whole, and the second one is not.
  have hfirst : 0 < n := (hframes 0 (by decide)).mpr (by decide)
  have hsecond : ¬ 1 < n := fun hlt => absurd ((hframes 1 (by decide)).mp hlt) (by decide)
  obtain rfl : n = 1 := by omega
  obtain rfl : rest = [0, 2, 1] := by simpa [ofPayloads, eq_comm] using heq
  exact hreads _ 2 rfl (by decide)

end Lockbox.Frame
