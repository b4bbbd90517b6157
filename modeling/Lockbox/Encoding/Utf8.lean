import Lockbox.Bytes

namespace Lockbox

/-!
# Repairing UTF-8

Bytes that are not valid UTF-8 can still be shown: every maximal part that starts a character and
cannot be completed becomes one replacement character, and so does every byte that starts none.

* `repair` — the text with all such parts replaced.
* `Bytes.toTextLossy` — the text of valid UTF-8, else the repaired one.
-/

namespace Utf8

/-- How a character of several bytes starts. -/
structure Lead where
  /-- The bits that the first byte contributes. -/
  bits : Nat
  /-- The number of bytes that follow. -/
  size : Nat
  /-- The least second byte. -/
  low : UInt8
  /-- The greatest second byte. -/
  high : UInt8

/-- What a first byte announces.  The ranges of the second byte leave out overlong forms, surrogates
    and numbers above the last code point. -/
def lead? (x : UInt8) : Option Lead :=
  if 0xc2 ≤ x ∧ x ≤ 0xdf then some ⟨x.toNat - 0xc0, 1, 0x80, 0xbf⟩
  else if x = 0xe0 then some ⟨0, 2, 0xa0, 0xbf⟩
  else if x = 0xed then some ⟨13, 2, 0x80, 0x9f⟩
  else if 0xe1 ≤ x ∧ x ≤ 0xef then some ⟨x.toNat - 0xe0, 2, 0x80, 0xbf⟩
  else if x = 0xf0 then some ⟨0, 3, 0x90, 0xbf⟩
  else if 0xf1 ≤ x ∧ x ≤ 0xf3 then some ⟨x.toNat - 0xf0, 3, 0x80, 0xbf⟩
  else if x = 0xf4 then some ⟨4, 3, 0x80, 0x8f⟩
  else none

/-- Can this byte continue a character? -/
def isContinuation (x : UInt8) : Bool := 0x80 ≤ x && x ≤ 0xbf

/-- The bytes after the first one that belong to the same character. -/
def Lead.continuation (lead : Lead) : Bytes → Bytes
  | [] => []
  | y :: rest =>
    if lead.low ≤ y ∧ y ≤ lead.high then
      y :: (rest.take (lead.size - 1)).takeWhile isContinuation
    else []

/-- The replacement character. -/
def replacement : Char := '\uFFFD'

/-- The next character, and how many bytes after the first one it takes. -/
def next (x : UInt8) (rest : Bytes) : Char × Nat :=
  if x < 0x80 then (Char.ofNat x.toNat, 0)
  else match lead? x with
    | none => (replacement, 0)
    | some lead =>
      let more := lead.continuation rest
      if more.length = lead.size then
        (Char.ofNat (more.foldl (fun n y => n * 64 + (y.toNat - 0x80)) lead.bits), lead.size)
      else (replacement, more.length)

/-- Reads character by character, collecting them last first. -/
def repairOnto (done : List Char) (b : Bytes) : List Char :=
  match b with
  | [] => done.reverse
  | x :: rest => let (c, size) := next x rest; repairOnto (c :: done) (rest.drop size)
termination_by b.length
decreasing_by simp only [List.length_drop, List.length_cons]; omega

/-- The text with every part that is not valid replaced. -/
def repair (b : Bytes) : String := String.ofList (repairOnto [] b)

end Utf8

namespace Bytes

/-- The text of these bytes, repaired where they are not valid UTF-8. -/
def toTextLossy (b : Bytes) : String := (toText? b).getD (Utf8.repair b)

/-- Valid UTF-8 needs no repair. -/
theorem toTextLossy_ofText (s : String) : toTextLossy (ofText s) = s := by
  simp [toTextLossy, toText?_ofText]

end Bytes

end Lockbox
