import Lockbox.Encoding.Pieces

namespace Lockbox

/-!
# Paths

A `Path` is a list of names from the root on.  A written path is a text; its segments are what
stands between the slashes.

* `Path.segments` — the segments of a written path.
* `Path.absolute` — the path that a written path stands for if there are no links.
* `Path.render` — a path as text.
* `Path.parent`, `Path.join` — written paths up from and down to what is in a directory.
-/

/-- The names on the way from the root. -/
abbrev Path := List String

namespace Path

/-- The segments of a written path. -/
def segments (written : String) : List String := (pieces '/' written.toList).map String.ofList

/-- Does a written path start at the root? -/
def startsAtRoot (written : String) : Bool := written.toList.head? == some '/'

/-- Goes one segment further, without looking at any files: a name is a step down, two dots are a
    step up, which at the root leads nowhere.  The names on the way are kept last first, and dots are
    spelled in the way that names are. -/
def stepIn {α : Type} [DecidableEq α] (spell : String → α) (names : List α) (segment : α) :
    List α :=
  if segment = spell "" ∨ segment = spell "." then names
  else if segment = spell ".." then names.tail
  else segment :: names

/-- Goes one segment further, where names are texts. -/
def step (names : List String) (segment : String) : List String := stepIn id names segment

/-- The path that a written path stands for if there are no links. -/
def absolute (workingDirectory : Path) (written : String) : Path :=
  let start := if startsAtRoot written then [] else workingDirectory
  ((segments written).foldl step start.reverse).reverse

/-- A path as text. -/
def render (path : Path) : String := "/" ++ "/".intercalate path

/-- A written path, taken from a directory unless it starts at the root itself. -/
def join (directory written : String) : String :=
  if startsAtRoot written then written
  else if directory.toList.getLast? = some '/' then directory ++ written
  else directory ++ "/" ++ written

/-- Segments without those at the end that lead nowhere. -/
def trim (segments : List String) : List String :=
  (segments.reverse.dropWhile fun segment => segment = "" ∨ segment = ".").reverse

/-- The directory of the last name in a written path, as it is written there.  The working directory
    is written as a dot; a path without names is taken to be in it. -/
def parent (written : String) : String :=
  let rooted := startsAtRoot written
  let names := trim ((segments written).drop (if rooted then 1 else 0))
  let above := "/".intercalate (trim names.dropLast)
  if rooted ∧ names ≠ [] then "/" ++ above
  else if above = "" then "."
  else above

end Path

end Lockbox
