import Lockbox.Derivation.Registry
import Std.Data.ExtTreeMap.Lemmas

namespace Lockbox

/-!
# Containers

A container is a finite map from names to texts, and the key derivation that it is stored with.  The
names are kept in ascending order, which is the order of their UTF-8 bytes.

* `Container.get`, `upsert`, `delete`, `rename` — what can be done with the entries.
* `ContainerError` — why a name cannot be used.
-/

/-- A container. -/
structure Container where
  /-- The texts by name. -/
  entries : Std.ExtTreeMap String String := ∅
  /-- The key derivation that the container is stored with. -/
  derivation : Derivation

/-- Why a container refuses. -/
inductive ContainerError
  /-- No entry has this name. -/
  | missing (name : String)
  /-- An entry has this name already. -/
  | taken (name : String)
  /-- The text does not describe a container. -/
  | malformed
  deriving DecidableEq, Repr

/-- The wording of a refusal. -/
def ContainerError.message : ContainerError → String
  | missing name => s!"Key '{name}' not found"
  | taken name => s!"Key '{name}' already exists"
  | malformed => "Unable to parse container contents"

namespace Container

/-- The container without entries. -/
def empty (d : Derivation) : Container := { derivation := d }

/-- The number of entries. -/
def size (c : Container) : Nat := c.entries.size

/-- The names of the entries in ascending order. -/
def names (c : Container) : List String := c.entries.keys

/-- The text of an entry. -/
def get (c : Container) (name : String) : Except ContainerError String :=
  match c.entries[name]? with
  | some text => .ok text
  | none => .error (.missing name)

/-- Adds an entry or replaces its text.  Tells whether it was there. -/
def upsert (c : Container) (name text : String) : Bool × Container :=
  (c.entries.contains name, { c with entries := c.entries.insert name text })

/-- Removes an entry. -/
def delete (c : Container) (name : String) : Except ContainerError Container :=
  if name ∈ c.entries then .ok { c with entries := c.entries.erase name }
  else .error (.missing name)

/-- Gives an entry a name that is not taken. -/
def rename (c : Container) (name newName : String) : Except ContainerError Container :=
  match c.entries[name]? with
  | none => .error (.missing name)
  | some text =>
    if newName ∈ c.entries then .error (.taken newName)
    else .ok { c with entries := (c.entries.erase name).insert newName text }

end Container

end Lockbox
