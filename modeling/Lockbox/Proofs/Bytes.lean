import Lockbox.Bytes

namespace Lockbox.Bytes

/-!
# Texts as bytes

The bytes of a text are those of its characters, one after the other.

* `ofText_ofList` — the bytes of a text from those of its characters.
* `toNatBE_pair` — a number that two bytes hold.
-/

/-- The bytes of a text are those of its characters. -/
theorem ofText_ofList (l : List Char) :
    ofText (String.ofList l) = l.flatMap String.utf8EncodeChar := by
  simp [ofText, List.utf8Encode]

/-- Two bytes hold every number below 65536. -/
theorem toNatBE_pair {n : Nat} (h : n < 65536) : toNatBE (ofNatBE 2 n) = n := by
  have hbytes : ofNatBE 2 n = [UInt8.ofNat (n >>> 8), UInt8.ofNat n] := by
    simp [ofNatBE, ofNatLE, List.range_succ]
  rw [hbytes, Nat.shiftRight_eq_div_pow]
  simp only [toNatBE, List.foldl_cons, List.foldl_nil, UInt8.toNat_ofNat']
  omega

end Lockbox.Bytes
