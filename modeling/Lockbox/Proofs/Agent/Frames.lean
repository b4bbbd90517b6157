import Lockbox.Proofs.Agent.Messages

namespace Lockbox.Frame

/-!
# The first frame of a stream

A stream starts with a whole frame or it does not.  Both are said here without reading the stream,
and all that reading it comes to follows from them.

* `Starts` — a stream that starts with a whole frame, and how it goes on.
* `starts_iff_read`, `read_of_not_starts` — what is read in the two cases.
* `starts_frame` — what is written is one frame.
-/

variable {stream payload rest : Bytes}

/-- Does the stream start with a whole frame of this payload, and go on like this?  A frame is the
    length of its payload in two bytes, the high one first, and then the payload. -/
def Starts (stream payload rest : Bytes) : Prop :=
  payload.length ≤ maxSize ∧
    stream = UInt8.ofNat (payload.length / 256) :: UInt8.ofNat (payload.length % 256) ::
      (payload ++ rest)

/-- Two bytes hold the length of a payload in one way only. -/
theorem toNatBE_eq_length_iff {high low : UInt8} :
    Bytes.toNatBE [high, low] = payload.length ↔ payload.length ≤ maxSize ∧
      high = UInt8.ofNat (payload.length / 256) ∧ low = UInt8.ofNat (payload.length % 256) := by
  have hhigh := high.toNat_lt
  have hlow := low.toNat_lt
  have hvalue : Bytes.toNatBE [high, low] = high.toNat * 256 + low.toNat := by
    simp [Bytes.toNatBE]
  have hmax : maxSize = 65535 := rfl
  rw [hvalue, ← UInt8.toNat_inj, ← UInt8.toNat_inj, UInt8.toNat_ofNat', UInt8.toNat_ofNat']
  omega

/-- A whole frame is what is read. -/
theorem starts_iff_read : Starts stream payload rest ↔ read stream = (.ok payload, rest) := by
  rw [read_eq_ok]
  constructor
  · rintro ⟨hfits, rfl⟩
    exact ⟨_, _, rfl, toNatBE_eq_length_iff.mpr ⟨hfits, rfl, rfl⟩⟩
  · rintro ⟨high, low, rfl, hvalue⟩
    obtain ⟨hfits, rfl, rfl⟩ := toNatBE_eq_length_iff.mp hvalue
    exact ⟨hfits, rfl⟩

/-- A stream without a whole frame is used up, and reading it fails. -/
theorem read_of_not_starts (h : ∀ payload rest, ¬ Starts stream payload rest) :
    read stream = (.error (.transport .unexpectedEnd), []) := by
  unfold read
  split
  · rename_i high low body
    dsimp only
    split
    · rename_i hsize
      -- There are enough bytes for the payload, so this is a whole frame.
      refine absurd (starts_iff_read.mpr ?_) (h (body.take (Bytes.toNatBE [high, low]))
        (body.drop (Bytes.toNatBE [high, low])))
      rw [read, if_pos hsize]
    · rfl
  · rfl

/-- What is written for a payload starts the stream that it is written to. -/
theorem starts_of_write {frame : Bytes} (h : write payload = .ok frame) (rest : Bytes) :
    Starts (frame ++ rest) payload rest := starts_iff_read.mpr (read_write h rest)

/-- What is written for a payload is one frame. -/
theorem starts_frame (h : payload.length ≤ maxSize) :
    Starts (Bytes.ofNatBE 2 payload.length ++ payload) payload [] := by
  have hstarts := starts_of_write (write_eq_ok h) []
  rwa [List.append_nil] at hstarts

/-- A stream starts with one frame only. -/
theorem Starts.unique {payload' rest' : Bytes} (h : Starts stream payload rest)
    (h' : Starts stream payload' rest') : payload = payload' ∧ rest = rest' := by
  rw [starts_iff_read] at h h'
  rw [h, Prod.mk.injEq, Except.ok.injEq] at h'
  exact h'

end Lockbox.Frame
