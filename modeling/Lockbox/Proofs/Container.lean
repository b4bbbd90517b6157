import Lockbox.Container.Text
import Lockbox.Proofs.Encoding.ByteOrder
import Lockbox.Proofs.Json.Fields

namespace Lockbox.Container

/-!
# Containers read back

The text of a container describes the container itself, and its names are in the order of their
bytes.

* `ofText?_toText` — containers as texts.
* `pairwise_names`, `mem_names` — the names of a container.
-/

/-! ### Containers as texts -/

theorem entryToJson_eq (name text : String) :
    entryToJson name text = .object ([("Key", Json.ofText name), ("Text", Json.ofText text)].map
      fun member => (Json.TextUnit.ofText member.1, member.2)) := rfl

theorem readable_entryToJson (name text : String) : (entryToJson name text).Readable := by
  rw [entryToJson_eq]
  refine Json.readable_object fun member hmem => ?_
  simp only [List.mem_cons, List.not_mem_nil, or_false] at hmem
  rcases hmem with rfl | rfl <;> exact Json.readable_ofText _

/-- A container can be written. -/
theorem readable_toJson (c : Container) : c.toJson.Readable := by
  refine Json.readable_array fun item hmem => ?_
  obtain ⟨entry, -, rfl⟩ := List.mem_map.mp hmem
  exact readable_entryToJson entry.1 entry.2

/-- An entry reads back. -/
theorem entryOfJson?_entryToJson (name text : String) :
    entryOfJson? (entryToJson name text) = some (name, text) := by
  have hfields : (entryToJson name text).fields? fieldNames =
      some [some (Json.ofText name), some (Json.ofText text)] := by
    rw [entryToJson_eq]
    exact Json.fields?_object (show fieldNames.Nodup by decide)
  rw [entryOfJson?, hfields]
  simp only [Option.bind_eq_bind, Option.bind_some, Json.required?_ofText]
  rfl

/-- A map is what its own list of entries makes. -/
theorem foldl_toList (entries : Std.ExtTreeMap String String) :
    entries.toList.foldl (fun map entry => map.insert entry.1 entry.2) ∅ = entries := by
  rw [← Std.ExtTreeMap.ofList_eq_foldl]
  -- Maps are the same if they have the same entries, and the list of a map has each name once.
  apply Std.ExtTreeMap.ext_getElem?
  intro name
  cases hname : entries[name]? with
  | none =>
    apply Std.ExtTreeMap.getElem?_ofList_of_contains_eq_false
    rw [Std.ExtTreeMap.map_fst_toList_eq_keys, Std.ExtTreeMap.contains_keys,
      Std.ExtTreeMap.contains_eq_isSome_getElem?, hname]
    rfl
  | some text =>
    exact Std.ExtTreeMap.getElem?_ofList_of_mem Std.ReflCmp.compare_self
      Std.ExtTreeMap.distinct_keys_toList (Std.ExtTreeMap.mem_toList_iff_getElem?_eq_some.mpr hname)

/-- **A container reads back.** -/
theorem ofText?_toText (c : Container) : ofText? c.toText c.derivation = .ok c := by
  have hentries : (c.entries.toList.map fun entry => entryToJson entry.1 entry.2).mapM
      entryOfJson? = some c.entries.toList := by
    rw [List.mapM_map]
    have hmap := Json.mapM_eq_some (l := c.entries.toList) (g := id)
      (f := fun entry => entryOfJson? (entryToJson entry.1 entry.2))
      fun entry _ => entryOfJson?_entryToJson entry.1 entry.2
    rwa [List.map_id] at hmap
  have hjson : ofJson? c.derivation c.toJson = some c := by
    show (do
      let entries ←
        (c.entries.toList.map fun entry => entryToJson entry.1 entry.2).mapM entryOfJson?
      return { derivation := c.derivation
               entries := entries.foldl (fun map entry => map.insert entry.1 entry.2) ∅ }) = some c
    rw [hentries]
    show some { derivation := c.derivation, entries := _ : Container } = some c
    rw [foldl_toList]
  rw [ofText?, toText, Json.parse?_print (.indented 4) c.readable_toJson, Option.bind_some, hjson]

/-- What a text describes has the key derivation that is told from elsewhere. -/
theorem derivation_of_ofText? {text : Bytes} {d : Derivation} {c : Container}
    (h : ofText? text d = .ok c) : c.derivation = d := by
  unfold ofText? at h
  cases hparse : (Json.parse? text).bind (ofJson? d) with
  | none =>
    rw [hparse] at h
    cases h
  | some other =>
    rw [hparse] at h
    obtain rfl := Except.ok.inj h
    obtain ⟨value, -, hvalue⟩ := Option.bind_eq_some_iff.mp hparse
    cases value with
    | array items =>
      obtain ⟨entries, -, hentries⟩ := Option.bind_eq_some_iff.mp hvalue
      rw [← Option.some.inj hentries]
    | null | bool _ | number _ | text _ | object _ => cases hvalue

/-! ### Names -/

/-- The names of a container are those of its entries. -/
theorem mem_names {c : Container} {name : String} : name ∈ c.names ↔ name ∈ c.entries :=
  Std.ExtTreeMap.mem_keys

/-- They are in ascending order of their bytes. -/
theorem pairwise_names (c : Container) :
    c.names.Pairwise fun a b => Bytes.ofText a < Bytes.ofText b := by
  -- The tree keeps its names in the order of texts.
  refine Std.ExtTreeMap.ordered_keys.imp fun {a b} hlt => ?_
  exact Bytes.ofText_lt_ofText (compareOfLessAndEq_eq_lt.mp hlt)

end Lockbox.Container
