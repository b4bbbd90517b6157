import Lockbox.Encoding.Hex
import Lockbox.Encoding.Utf8
import Lockbox.Fault
import Lockbox.Files.RawPath
import Lockbox.Hash.Md5

namespace Lockbox

/-!
# Locations

A container is at a location, a written path or a remote address.  An agent keeps the password of a
container under the fingerprint of its canonical location, so that all ways to write a path come to
one and the location itself is not told.

A canonical location is a text.  The names of a working directory that are not UTF-8 are read with
replacement characters for it, so canonical locations tell working directories apart only as far as
they are texts.

* `Location.canonicalFrom`, `canonical` — the one way to write a location.
* `Location.fingerprint` — the name that its password is kept under.
-/

namespace Location

/-- Is the location a remote address? -/
def isRemote (location : String) : Bool := "https://".toList.isPrefixOf location.toList

/-- The one way to write a location: a remote address as it is, a path from the root on, with dots
    and superfluous slashes resolved in the bytes alone, read as a text.  An empty path is none. -/
def canonicalFrom (workingDirectory : RawPath) (location : String) : Except Fault String :=
  if isRemote location then .ok location
  else if location = "" then .error .invalidInput
  else
    .ok (RawPath.absolute workingDirectory (Bytes.ofText location)).render.toTextLossy

/-- The one way to write a location in a working directory that is a text. -/
def canonical (workingDirectory : Path) (location : String) : Except Fault String :=
  canonicalFrom (workingDirectory.map Bytes.ofText) location

/-- The fingerprint of a text. -/
def fingerprintOf (text : String) : String :=
  "PWMAN:" ++ String.ofList (Hex.encode .lower (Md5.digest (Bytes.ofText text)).toList)

/-- All fingerprints are of one length. -/
@[simp] theorem length_fingerprintOf (text : String) : (fingerprintOf text).length = 38 := by
  have hdigits : ∀ digest : Vector UInt8 16,
      (String.ofList (Hex.encode .lower digest.toList)).length = 32 := by
    intro digest
    rw [String.length_ofList, Hex.length_encode, Vector.length_toList]
  rw [fingerprintOf, String.length_append, hdigits]
  rfl

/-- The name that the password of the container at a location is kept under, in a working directory
    that is a text. -/
def fingerprint (workingDirectory : Path) (location : String) : Except Fault String :=
  (canonical workingDirectory location).map fingerprintOf

end Location

end Lockbox
