import Lockbox.Bytes
import Lockbox.Files.Path

namespace Lockbox

/-!
# Paths as bytes

The names of directories are bytes, and need not be those of a text.  Locations are texts, but the
working directory that they are taken from is what it is.

* `RawPath.segments` — the segments of a path as bytes.
* `RawPath.absolute` — the path that a path as bytes stands for if there are no links.
* `RawPath.render` — a path as bytes.
-/

/-- The names on the way from the root, as bytes. -/
abbrev RawPath := List Bytes

namespace RawPath

/-- The byte between segments. -/
def slash : UInt8 := 0x2f

/-- The segments of a path as bytes. -/
def segments (written : Bytes) : List Bytes := pieces slash written

/-- Does a path as bytes start at the root? -/
def startsAtRoot (written : Bytes) : Bool := written.head? == some slash

/-- The path that a path as bytes stands for if there are no links. -/
def absolute (workingDirectory : RawPath) (written : Bytes) : RawPath :=
  let start := if startsAtRoot written then [] else workingDirectory
  ((segments written).foldl (Path.stepIn Bytes.ofText) start.reverse).reverse

/-- A path as bytes, with slashes between its names. -/
def render (path : RawPath) : Bytes := slash :: [slash].intercalate path

end RawPath

end Lockbox
