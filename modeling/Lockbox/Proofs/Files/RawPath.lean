import Lockbox.Files.RawPath
import Lockbox.Proofs.Encoding.Utf8

namespace Lockbox

/-!
# Paths as bytes and as text

A path that is resolved as bytes and then read as a text is the same as one whose names are read
first.  Slashes and dots are ASCII, so reading neither makes new ones nor takes any away.

* `RawPath.map_segments` — the segments of bytes, read as texts.
* `RawPath.map_absolute` — the path that bytes stand for, with its names read as texts.
* `RawPath.toTextLossy_render` — the text of a path.
-/

namespace RawPath

/-! ### Segments -/

theorem chars_slash (b more : Bytes) :
    Utf8.chars (b ++ slash :: more) = Utf8.chars b ++ '/' :: Utf8.chars more :=
  Utf8.chars_append (by decide) b more

/-- Bytes are cut at the slashes that their text is cut at. -/
theorem pieces_chars (b : Bytes) :
    (pieces slash b).map Utf8.chars = pieces '/' (Utf8.chars b) := by
  induction hlength : b.length using Nat.strongRecOn generalizing b with
  | ind length ih =>
    by_cases hslash : slash ∈ b
    · obtain ⟨first, rest, rfl, hfirst⟩ := List.eq_append_cons_of_mem hslash
      have hshort : rest.length < length := by
        rw [← hlength, List.length_append, List.length_cons]
        omega
      have hplain : '/' ∉ Utf8.chars first :=
        fun hmem => hfirst (Utf8.mem_of_mem_chars (by decide) (by decide) hmem)
      rw [pieces_append_cons hfirst, chars_slash, pieces_append_cons hplain, List.map_cons,
        ih _ hshort _ rfl]
    · have hplain : '/' ∉ Utf8.chars b :=
        fun hmem => hslash (Utf8.mem_of_mem_chars (by decide) (by decide) hmem)
      rw [pieces_of_notMem hslash, pieces_of_notMem hplain, List.map_singleton]

/-- The segments of bytes, read as texts, are those of their text. -/
theorem map_segments (b : Bytes) :
    (segments b).map Bytes.toTextLossy = Path.segments b.toTextLossy := by
  rw [Path.segments, Bytes.toTextLossy_eq, String.toList_ofList, ← pieces_chars, List.map_map]
  exact List.map_congr_left fun part _ => Bytes.toTextLossy_eq part

/-- Bytes start at the root where their text does. -/
theorem startsAtRoot_toTextLossy (b : Bytes) :
    Path.startsAtRoot b.toTextLossy = startsAtRoot b := by
  rw [Path.startsAtRoot, startsAtRoot, Bytes.toTextLossy_eq, String.toList_ofList, Bool.eq_iff_iff,
    beq_iff_eq, beq_iff_eq]
  cases b with
  | nil => simp
  | cons x rest =>
    rw [Utf8.chars_cons, List.head?_cons, List.head?_cons, Option.some.injEq, Option.some.injEq]
    constructor
    · exact fun h => Utf8.eq_of_next (by decide) (by decide) h
    · rintro rfl
      exact congrArg Prod.fst (Utf8.next_ascii (by decide) rest)

/-! ### Paths -/

/-- Dots mean the same as bytes and as text. -/
theorem map_stepIn (names : List Bytes) (segment : Bytes) :
    (Path.stepIn Bytes.ofText names segment).map Bytes.toTextLossy =
      Path.step (names.map Bytes.toTextLossy) segment.toTextLossy := by
  have hempty : segment.toTextLossy = "" ↔ segment = Bytes.ofText "" :=
    Bytes.toTextLossy_eq_iff (by simp)
  have hdot : segment.toTextLossy = "." ↔ segment = Bytes.ofText "." :=
    Bytes.toTextLossy_eq_iff (by simp)
  have hdots : segment.toTextLossy = ".." ↔ segment = Bytes.ofText ".." :=
    Bytes.toTextLossy_eq_iff (by simp)
  simp only [Path.step, Path.stepIn, id_eq, hempty, hdot, hdots]
  split
  · rfl
  · split
    · rw [List.map_tail]
    · rw [List.map_cons]

/-- Segments lead to the same names as bytes and as text. -/
theorem map_foldl_stepIn (names segments : List Bytes) :
    (segments.foldl (Path.stepIn Bytes.ofText) names).map Bytes.toTextLossy =
      (segments.map Bytes.toTextLossy).foldl Path.step (names.map Bytes.toTextLossy) := by
  induction segments generalizing names with
  | nil => rfl
  | cons segment rest ih => rw [List.foldl_cons, ih, map_stepIn, List.map_cons, List.foldl_cons]

/-- The path that bytes stand for, with its names read as texts. -/
theorem map_absolute (workingDirectory : RawPath) (written : Bytes) :
    (absolute workingDirectory written).map Bytes.toTextLossy =
      Path.absolute (workingDirectory.map Bytes.toTextLossy) written.toTextLossy := by
  have hstart : (if startsAtRoot written then [] else workingDirectory).map Bytes.toTextLossy =
      if Path.startsAtRoot written.toTextLossy then []
      else workingDirectory.map Bytes.toTextLossy := by
    rw [startsAtRoot_toTextLossy]
    split <;> rfl
  rw [absolute, Path.absolute, ← hstart, ← map_segments, List.map_reverse, map_foldl_stepIn,
    List.map_reverse]

theorem chars_intercalate (path : RawPath) :
    Utf8.chars ([slash].intercalate path) = ['/'].intercalate (path.map Utf8.chars) := by
  induction path with
  | nil => exact Utf8.chars_nil
  | cons name rest ih =>
    cases rest with
    | nil => rw [List.map_singleton, List.intercalate_singleton, List.intercalate_singleton]
    | cons next rest =>
      have htexts : (name :: next :: rest).map Utf8.chars =
          Utf8.chars name :: Utf8.chars next :: rest.map Utf8.chars := rfl
      rw [htexts, List.intercalate_cons_cons, List.intercalate_cons_cons, List.append_assoc,
        List.append_assoc, List.singleton_append, List.singleton_append, chars_slash, ih]
      rfl

/-- The text of a path is that of its names. -/
theorem toTextLossy_render (path : RawPath) :
    (render path).toTextLossy = Path.render (path.map Bytes.toTextLossy) := by
  have htexts : (path.map Bytes.toTextLossy).map String.toList = path.map Utf8.chars := by
    rw [List.map_map]
    exact List.map_congr_left fun name _ => by
      rw [Function.comp_apply, Bytes.toTextLossy_eq, String.toList_ofList]
  rw [← String.toList_inj, Bytes.toTextLossy_eq, String.toList_ofList, Path.render,
    String.toList_append, String.toList_intercalate, htexts]
  exact (chars_slash [] _).trans (by rw [Utf8.chars_nil, chars_intercalate]; rfl)

/-- What a written path stands for, resolved as bytes and read as a text. -/
theorem toTextLossy_render_absolute (workingDirectory : RawPath) (written : String) :
    (absolute workingDirectory (Bytes.ofText written)).render.toTextLossy =
      (Path.absolute (workingDirectory.map Bytes.toTextLossy) written).render := by
  rw [toTextLossy_render, map_absolute, Bytes.toTextLossy_ofText]

end RawPath

end Lockbox
