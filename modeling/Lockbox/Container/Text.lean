import Lockbox.Container.Basic
import Lockbox.Json.Fields
import Lockbox.Json.Layout

namespace Lockbox.Container

/-!
# Containers as text

The entries of a container are written as a JSON list in ascending order of their names, indented by
four blanks.  Where a text repeats a name, the last entry counts.

* `toText` — the entries as text.
* `ofText?` — the container that a text describes, with a key derivation told from elsewhere.
-/

/-- The names of the fields of an entry. -/
def fieldNames : List String := ["Key", "Text"]

/-- An entry as a value. -/
def entryToJson (name text : String) : Json :=
  .object [(Json.TextUnit.ofText "Key", Json.ofText name),
    (Json.TextUnit.ofText "Text", Json.ofText text)]

/-- The entry that a value describes. -/
def entryOfJson? (value : Json) : Option (String × String) := do
  match ← value.fields? fieldNames with
  | [name, text] => return (← Json.required? name, ← Json.required? text)
  | _ => none

/-- The entries as a value. -/
def toJson (c : Container) : Json :=
  .array (c.entries.toList.map fun entry => entryToJson entry.1 entry.2)

/-- The container that a value describes. -/
def ofJson? (d : Derivation) : Json → Option Container
  | .array items => do
    let entries ← items.mapM entryOfJson?
    return { derivation := d
             entries := entries.foldl (fun map entry => map.insert entry.1 entry.2) ∅ }
  | _ => none

/-- The entries as text. -/
def toText (c : Container) : Bytes := c.toJson.print (.indented 4)

/-- The container that a text describes. -/
def ofText? (b : Bytes) (d : Derivation) : Except ContainerError Container :=
  match (Json.parse? b).bind (ofJson? d) with
  | some c => .ok c
  | none => .error .malformed

end Lockbox.Container
