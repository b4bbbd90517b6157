import Lockbox.Proofs.Files.Links
import Lockbox.Proofs.Files.RawPath
import Lockbox.Proofs.Storage

namespace Lockbox

/-!
# One name, one container

The name that a password is kept under is made of the text of a location alone.  Containers at
locations with one canonical form are one container, unless two dots go up from a link that leads
away, or the working directory is not UTF-8: there the text says something else than the files.

* `Path.resolve_names`, `segments_render`, `render_injective` — the names in a path, and its text.
* `Location.canonicalFrom_of_local`, `fingerprint_of_local` — canonical forms of local locations.
* `Location.absolute_eq_of_canonical_eq` — locations with one canonical form.
* `same_container_of_canonical_eq` — what they lead to.
* `two_containers_of_one_name` — where they lead to two containers.
-/

/-! ### Paths as text -/

namespace Path

/-- The names on the way are those of the directory and those that are written. -/
theorem resolve_names {directory : Path} {segments : List String} {name : String}
    (h : name ∈ directory.resolve segments) :
    name ∈ directory ∨ name ∈ segments ∧ Files.IsName name := by
  induction segments generalizing directory with
  | nil =>
    rw [resolve_nil] at h
    exact .inl h
  | cons segment rest ih =>
    rcases Files.segment_cases segment with hskip | rfl | hname
    · rw [resolve_skip hskip] at h
      exact (ih h).imp_right fun ⟨hmem, hname⟩ => ⟨List.mem_cons_of_mem _ hmem, hname⟩
    · rw [resolve_up] at h
      exact (ih h).imp (fun hmem => List.dropLast_subset directory hmem)
        fun ⟨hmem, hname⟩ => ⟨List.mem_cons_of_mem _ hmem, hname⟩
    · rw [resolve_name hname] at h
      rcases ih h with hmem | ⟨hmem, hproper⟩
      · rcases List.mem_append.mp hmem with hold | hnew
        · exact .inl hold
        · rw [List.mem_singleton.mp hnew]
          exact .inr ⟨List.mem_cons_self, hname⟩
      · exact .inr ⟨List.mem_cons_of_mem _ hmem, hproper⟩

/-- The segments of a path as text: nothing before its first slash, and then its names. -/
theorem segments_render_of_ne_nil {path : Path} (hne : path ≠ [])
    (h : ∀ name ∈ path, '/' ∉ name.toList) : segments path.render = "" :: path := by
  have htext : path.render.toList = [] ++ '/' :: ['/'].intercalate (path.map String.toList) := by
    rw [render, String.toList_append, String.toList_intercalate]
    rfl
  have hnames : ∀ part ∈ path.map String.toList, '/' ∉ part := by
    intro part hpart
    obtain ⟨name, hname, rfl⟩ := List.mem_map.mp hpart
    exact h name hname
  rw [segments, htext, pieces_append_cons List.not_mem_nil,
    pieces_intercalate (by simpa using hne) hnames, List.map_cons, List.map_map]
  simp [Function.comp_def]

/-- The segments of a path as text are its names, but for empty ones. -/
theorem segments_render {path : Path} (h : ∀ name ∈ path, name ≠ "" ∧ '/' ∉ name.toList) :
    (segments path.render).filter (· ≠ "") = path := by
  by_cases hne : path = []
  · subst hne
    decide
  · rw [segments_render_of_ne_nil hne fun name hname => (h name hname).2,
      List.filter_cons_of_neg (by decide), List.filter_eq_self]
    exact fun name hname => decide_eq_true (h name hname).1

/-- Paths that are the same as text are the same. -/
theorem render_injective {path other : Path} (h : ∀ name ∈ path, name ≠ "" ∧ '/' ∉ name.toList)
    (hother : ∀ name ∈ other, name ≠ "" ∧ '/' ∉ name.toList) (heq : path.render = other.render) :
    path = other := by
  rw [← segments_render h, heq, segments_render hother]

/-- The segments of a written path have no slashes in them. -/
theorem slash_notMem_segments {written segment : String} (h : segment ∈ segments written) :
    '/' ∉ segment.toList := by
  obtain ⟨part, hpart, rfl⟩ := List.mem_map.mp h
  rw [String.toList_ofList]
  exact notMem_of_mem_pieces hpart

end Path

/-! ### Locations -/

namespace Location

variable {files : Files} {a b : String}

/-- The names in the path that a location stands for. -/
theorem absolute_names (hplace : files.IsInPlace) (location : String) :
    ∀ name ∈ Path.absolute files.workingDirectory location, name ≠ "" ∧ '/' ∉ name.toList := by
  intro name hmem
  have hresolve : name ∈ Path.resolve (files.origin location) (Path.segments location) := hmem
  rcases Path.resolve_names hresolve with hdirectory | ⟨hsegment, hname⟩
  · unfold Files.origin at hdirectory
    split at hdirectory
    · cases hdirectory
    · obtain ⟨hname, hslash⟩ := hplace.named name hdirectory
      exact ⟨hname.1, hslash⟩
  · exact ⟨hname.1, Path.slash_notMem_segments hsegment⟩

/-- The canonical form of a local location, in any working directory. -/
theorem canonicalFrom_of_local {workingDirectory : RawPath} {location : String}
    (hlocal : isRemote location = false) (hne : location ≠ "") :
    canonicalFrom workingDirectory location =
      .ok (Path.absolute (workingDirectory.map Bytes.toTextLossy) location).render := by
  rw [canonicalFrom, if_neg (by rw [hlocal]; exact Bool.false_ne_true), if_neg hne,
    RawPath.toTextLossy_render_absolute]

/-- The canonical form of a local location, in a working directory that is a text. -/
theorem canonical_of_local {workingDirectory : Path} {location : String}
    (hlocal : isRemote location = false) (hne : location ≠ "") :
    canonical workingDirectory location = .ok (Path.absolute workingDirectory location).render := by
  have htexts : (workingDirectory.map Bytes.ofText).map Bytes.toTextLossy = workingDirectory := by
    rw [List.map_map]
    exact (List.map_congr_left fun name _ => Bytes.toTextLossy_ofText name).trans (List.map_id _)
  rw [canonical, canonicalFrom_of_local hlocal hne, htexts]

/-- The fingerprint of a local location is that of the path that it stands for. -/
theorem fingerprint_of_local {workingDirectory : Path} {location : String}
    (hlocal : isRemote location = false) (hne : location ≠ "") :
    fingerprint workingDirectory location =
      .ok (fingerprintOf (Path.absolute workingDirectory location).render) := by
  rw [fingerprint, canonical_of_local hlocal hne]
  rfl

/-- A location that leads anywhere is not empty. -/
theorem ne_empty_of_find {place : Files.Place} (h : files.find .look a = .ok place) : a ≠ "" := by
  rintro rfl
  have hcheck := (Files.find_eq_ok.mp h).1
  cases hcheck

/-- Local locations with one canonical form stand for one path. -/
theorem absolute_eq_of_canonical_eq (hplace : files.IsInPlace) (ha : isRemote a = false)
    (hb : isRemote b = false) (hane : a ≠ "") (hbne : b ≠ "")
    (h : canonical files.workingDirectory a = canonical files.workingDirectory b) :
    Path.absolute files.workingDirectory a = Path.absolute files.workingDirectory b := by
  rw [canonical_of_local ha hane, canonical_of_local hb hbne, Except.ok.injEq] at h
  exact Path.render_injective (absolute_names hplace a) (absolute_names hplace b) h

end Location

/-- **One name, one container.**  In a working directory that is UTF-8, as the names of `Files` are,
    local locations that can be read and have one canonical form lead to one file, if neither goes
    up from a link that leads away.  So each password opens the same container at both, or none. -/
theorem same_container_of_canonical_eq {files : Files} {a b : String} {one two : Bytes}
    (hplace : files.IsInPlace) (ha : Location.isRemote a = false)
    (hb : Location.isRemote b = false) (hastraight : files.Straight a)
    (hbstraight : files.Straight b) (haread : Storage.raw files a = .ok one)
    (hbread : Storage.raw files b = .ok two)
    (h : Location.canonical files.workingDirectory a =
      Location.canonical files.workingDirectory b) :
    (∃ path data mode, files.find .look a = .ok (.found path (.file data mode)) ∧
        files.find .look b = .ok (.found path (.file data mode))) ∧
      ∀ codec password, Storage.load codec files a password =
        Storage.load codec files b password := by
  obtain ⟨path, mode, hafind⟩ := Files.read_eq_ok.mp (mapError_eq_ok.mp haread)
  obtain ⟨other, permissions, hbfind⟩ := Files.read_eq_ok.mp (mapError_eq_ok.mp hbread)
  have habsolute := Location.absolute_eq_of_canonical_eq hplace ha hb
    (Location.ne_empty_of_find hafind) (Location.ne_empty_of_find hbfind) h
  -- Both lead where the path leads that they stand for.
  have hone := Files.ends_absolute hplace hastraight hafind
  have htwo := Files.ends_absolute hplace hbstraight hbfind
  rw [habsolute] at hone
  have hsame := hone.unique htwo
  refine ⟨⟨path, one, mode, hafind, by rw [hbfind, hsame]⟩, fun codec password => ?_⟩
  obtain ⟨-, hentry⟩ := Files.Place.found.inj hsame
  obtain ⟨hdata, -⟩ := Entry.file.inj hentry
  unfold Storage.load
  rw [haread, hbread, hdata]

/-- A tree with a link beside the directory that it leads to, and a container in their directory. -/
def Location.neighbours : Files :=
  (((({} : Files).insert ["d"] .directory).insert ["d", "e"] .directory).insert ["d", "l"]
    (.link "e")).insert ["d", "s"] (.file [1] 0o600)

/-- Going up from the link is going up from its neighbour. -/
theorem Location.straight_neighbours : neighbours.Straight "d/l/../s" := by
  intro before after hsegments
  have hcut : ["d", "l"] ++ ".." :: ["s"] = before ++ ".." :: after := by
    rw [← hsegments]
    decide
  obtain ⟨rfl, -⟩ := (List.append_cons_inj_of_notMem (by decide) (by decide)).mp hcut
  rintro ⟨parent, name, directory, target, place, hpath, hparent, -, hends, hne⟩
  obtain ⟨rfl, -⟩ := List.append_inj' (show ["d"] ++ ["l"] = parent ++ [name] from hpath) rfl
  have hdirectory : neighbours.Ends [] ["d"] (.found ["d"] .directory) := ⟨0, by decide⟩
  have htarget : neighbours.Ends [] ["d", "l"] (.found ["d", "e"] .directory) := ⟨1, by decide⟩
  obtain ⟨rfl, -⟩ := Files.Place.found.inj (hparent.unique hdirectory)
  obtain ⟨rfl, -⟩ := Files.Place.found.inj (hends.unique htarget)
  exact hne rfl

/-- A container that is reached by way of a link, and without it. -/
theorem same_container_by_link :
    Location.canonical Location.neighbours.workingDirectory "d/l/../s" =
        Location.canonical Location.neighbours.workingDirectory "/d/./s" ∧
      (∃ path data mode, Location.neighbours.find .look "d/l/../s" =
          .ok (.found path (.file data mode)) ∧
        Location.neighbours.find .look "/d/./s" = .ok (.found path (.file data mode))) ∧
      ∀ codec password, Storage.load codec Location.neighbours "d/l/../s" password =
        Storage.load codec Location.neighbours "/d/./s" password := by
  have hcanonical : Location.canonical Location.neighbours.workingDirectory "d/l/../s" =
      Location.canonical Location.neighbours.workingDirectory "/d/./s" := by decide
  have hread : Storage.raw Location.neighbours "d/l/../s" = .ok [1] := by decide +kernel
  have hplain : Storage.raw Location.neighbours "/d/./s" = .ok [1] := by decide
  have hstraight : Location.neighbours.Straight "/d/./s" := by
    apply Files.straight_of_notMem
    rw [show Path.segments "/d/./s" = ["", "d", ".", "s"] by decide]
    decide
  have hplace : Location.neighbours.IsInPlace := Files.isInPlace_root rfl
  have hlink : Location.isRemote "d/l/../s" = false := by decide
  have hlocal : Location.isRemote "/d/./s" = false := by decide
  exact ⟨hcanonical, same_container_of_canonical_eq hplace hlink hlocal
    Location.straight_neighbours hstraight hread hplain hcanonical⟩

/-- **One name can be that of two containers.**  Where two dots go up from a link that leads away,
    the canonical form of a location is that of another file.  And where the working directory is
    not UTF-8, its canonical form is that of a directory with replacement characters in its name. -/
theorem two_containers_of_one_name :
    (∃ (files : Files) (a b : String) (one two : Bytes), files.IsInPlace ∧
      Location.isRemote a = false ∧ Location.isRemote b = false ∧
      Storage.raw files a = .ok one ∧ Storage.raw files b = .ok two ∧
      Location.canonical files.workingDirectory a = Location.canonical files.workingDirectory b ∧
      one ≠ two) ∧
    ∃ (workingDirectory : RawPath) (a b : String),
      Location.isRemote a = false ∧ Location.isRemote b = false ∧
      Location.canonicalFrom workingDirectory a = Location.canonicalFrom workingDirectory b ∧
      RawPath.absolute workingDirectory (Bytes.ofText a) ≠
        RawPath.absolute workingDirectory (Bytes.ofText b) := by
  refine ⟨?_, [[0xff]], "c", "/\uFFFD/c", by decide, by decide, ?_, by decide⟩
  · let files := ((((({} : Files).insert ["x"] .directory).insert ["x", "y"] .directory).insert
      ["l"] (.link "x/y")).insert ["s"] (.file [1] 0o600)).insert ["x", "s"] (.file [2] 0o600)
    exact ⟨files, "l/../s", "s", [2], [1], Files.isInPlace_root rfl, by decide, by decide,
      by decide, by decide, by decide, by decide⟩
  · have hname : Bytes.toTextLossy [0xff] = "\uFFFD" := by
      rw [Bytes.toTextLossy_eq, Utf8.chars_cons, List.drop_nil, Utf8.chars_nil]
      rfl
    rw [Location.canonicalFrom_of_local (by decide) (by decide),
      Location.canonicalFrom_of_local (by decide) (by decide), List.map_singleton, hname]
    decide

end Lockbox
