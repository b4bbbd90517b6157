import Lockbox.Proofs.Files.Disk
import Mathlib.Data.List.Nodup
import Mathlib.Data.List.Perm.Subperm
import Std.Data.String.ToNat

namespace Lockbox.Files

/-!
# Replacing a file

`writePrivate` either puts the new file where the written path says or leaves everything as it was:
its temporary file has a name that nothing else has, so it is in nobody's way and leaves no trace.

* `slot_eq_ok` — what it means that a written path names a place in a directory.
* `find_of_slot` — where a written path leads that names such a place.
* `notMem_of_freshName?` — a name for a temporary file.
* `IsTarget`, `run_writePrivate` — where a file can be put, and what comes of putting it there.
* `writePrivate_cases` — all that can come of it.
* `IsTarget.read`, `IsTarget.insert` — reading there, and putting another file there.
-/

/-! ### Slots -/

/-- Entering a directory is a walk that ends at one. -/
theorem enter_eq_ok {files : Files} {directory path : Path} {segments : List String} :
    files.enter directory segments = .ok path ↔
      files.walk .look maxLinks directory segments = .ok (.found path .directory) := by
  unfold enter
  cases hwalk : files.walk .look maxLinks directory segments with
  | error fault => exact ⟨nofun, nofun⟩
  | ok place =>
    cases place with
    | vacant path => exact ⟨nofun, nofun⟩
    | found found entry =>
      cases entry with
      | directory =>
        rw [ok_bind, Except.ok.injEq, Place.found.injEq]
        show Except.ok found = .ok path ↔ _
        rw [Except.ok.injEq, eq_self, and_true]
      | file data mode => exact ⟨nofun, nofun⟩
      | link target => exact ⟨nofun, nofun⟩

/-- What it means that a written path names a place in a directory. -/
theorem slot_eq_ok {files : Files} {written : String} {unnamed : Fault} {slot : Slot} :
    files.slot written unnamed = .ok slot ↔
      check written = .ok () ∧ ∃ before,
        (Path.segments written).reverse.dropWhile (· = "") = slot.name :: before ∧
        files.enter (files.origin written) before.reverse = .ok slot.directory ∧
        ¬ (slot.name = "." ∨ slot.name = "..") ∧
        slot.slash = decide ((Path.segments written).getLast? = some "") := by
  unfold Files.slot
  rw [bind_eq_ok]
  constructor
  · rintro ⟨_, hcheck, h⟩
    refine ⟨hcheck, ?_⟩
    dsimp only at h
    split at h
    · cases h
    · rename_i name before hnames
      obtain ⟨directory, henter, h⟩ := bind_eq_ok.mp h
      split at h
      · cases h
      · rename_i hdots
        obtain rfl := Except.ok.inj h
        exact ⟨before, hnames, henter, hdots, rfl⟩
  · rintro ⟨hcheck, before, hnames, henter, hdots, hslash⟩
    refine ⟨(), hcheck, ?_⟩
    dsimp only
    rw [hnames]
    dsimp only
    rw [henter, ok_bind, if_neg hdots]
    obtain ⟨directory, name, slash⟩ := slot
    exact congrArg (fun slash => Except.ok (Slot.mk directory name slash)) hslash.symm

/-- The segments of a written path whose last name no slash follows. -/
theorem segments_eq_append {segments before : List String} {name : String}
    (h : segments.reverse.dropWhile (· = "") = name :: before)
    (hslash : segments.getLast? ≠ some "") : segments = before.reverse ++ [name] ∧ name ≠ "" := by
  cases hreverse : segments.reverse with
  | nil =>
    rw [hreverse] at h
    cases h
  | cons last rest =>
    have hsegments : segments = rest.reverse ++ [last] := by
      rw [← List.reverse_reverse segments, hreverse, List.reverse_cons]
    have hlast : last ≠ "" := by
      rintro rfl
      exact hslash (by rw [hsegments, List.getLast?_concat])
    -- No segment is dropped, since the last one is not empty.
    rw [hreverse, List.dropWhile_cons_of_neg (by simpa using hlast)] at h
    obtain ⟨rfl, rfl⟩ := List.cons.inj h
    exact ⟨hsegments, hlast⟩

/-- What a written path names that can be replaced: its directory can be entered, its last name is
    one and no slash follows it. -/
theorem segments_of_slot {files : Files} {written : String} {unnamed : Fault} {slot : Slot}
    (h : files.slot written unnamed = .ok slot) (hslash : slot.slash = false) :
    ∃ before, Path.segments written = before ++ [slot.name] ∧ IsName slot.name ∧
      files.enter (files.origin written) before = .ok slot.directory := by
  obtain ⟨-, before, hnames, henter, hdots, hlast⟩ := slot_eq_ok.mp h
  rw [hslash] at hlast
  obtain ⟨hsegments, hempty⟩ := segments_eq_append hnames (of_decide_eq_false hlast.symm)
  obtain ⟨hdot, hup⟩ := not_or.mp hdots
  exact ⟨before.reverse, hsegments, ⟨hempty, hdot, hup⟩, henter⟩

/-- Where a written path leads that names a place in a directory: to what is there. -/
theorem find_of_slot {files : Files} {written : String} {unnamed : Fault} {slot : Slot}
    (h : files.slot written unnamed = .ok slot) (hslash : slot.slash = false)
    (hsize : ¬ slot.name.utf8ByteSize > maxNameSize) :
    (∀ data mode, files.entry? slot.path = some (.file data mode) →
        files.find .look written = .ok (.found slot.path (.file data mode))) ∧
      (files.entry? slot.path = none → files.find .look written = .ok (.vacant slot.path)) := by
  obtain ⟨before, hsegments, hname, henter⟩ := segments_of_slot h hslash
  obtain ⟨left, hleft⟩ := walk_append (enter_eq_ok.mp henter)
  have hfind : files.find .look written = files.walk .look left slot.directory [slot.name] := by
    unfold find
    rw [(slot_eq_ok.mp h).1, ok_bind, hsegments, hleft]
  rw [hfind, walk_name files left slot.directory hname, if_neg hsize]
  constructor
  · intro data mode hentry
    rw [show files.entry? (slot.directory ++ [slot.name]) = _ from hentry]
    rfl
  · intro hentry
    rw [show files.entry? (slot.directory ++ [slot.name]) = _ from hentry]
    rfl

/-- A place in a directory stays one when a file is put somewhere. -/
theorem slot_insert_file {files : Files} {written : String} {unnamed : Fault} {slot : Slot}
    {path : Path} (hpath : files.IsReplaceable path) (data : Bytes) (mode : Nat)
    (h : files.slot written unnamed = .ok slot) :
    (files.insert path (.file data mode)).slot written unnamed = .ok slot := by
  obtain ⟨hcheck, before, hnames, henter, hdots, hslash⟩ := slot_eq_ok.mp h
  refine slot_eq_ok.mpr ⟨hcheck, before, hnames, ?_, hdots, hslash⟩
  exact enter_eq_ok.mpr (walk_insert_file hpath data mode (enter_eq_ok.mp henter))

/-! ### Names for temporary files -/

/-- A name for a temporary file is one that nobody speaks of. -/
theorem notMem_of_freshName? {files : Files} {written name : String}
    (h : files.freshName? written = some name) :
    name ∉ files.names ∧ name ∉ Path.segments written := by
  have hfresh : name ∉ files.names ++ Path.segments written := by
    simpa using List.find?_some h
  rwa [List.mem_append, not_or] at hfresh

/-- Of the names for temporary files there are as many as one asks for. -/
theorem temporaryName_injective {m n : Nat} (h : temporaryName m = temporaryName n) : m = n := by
  have hdigits : Nat.repr (100000 + m) = Nat.repr (100000 + n) := (String.append_right_inj _).mp h
  have hsum := Nat.repr_inj.mp hdigits
  omega

/-- There is always one left, since more are tried than names are taken. -/
theorem exists_freshName? (files : Files) (written : String) :
    ∃ name, files.freshName? written = some name := by
  unfold freshName?
  generalize files.names ++ Path.segments written = taken
  dsimp only
  cases hfind : ((List.range (taken.length + 1)).map temporaryName).find?
      fun name => decide (name ∉ taken) with
  | some name => exact ⟨name, rfl⟩
  -- If all of them were taken, the names taken would be more than there are.
  | none =>
    have hall : (List.range (taken.length + 1)).map temporaryName ⊆ taken := by
      intro name hname
      have hnot := List.find?_eq_none.mp hfind name hname
      simpa using hnot
    have hnodup : ((List.range (taken.length + 1)).map temporaryName).Nodup :=
      List.Nodup.map (fun _ _ => temporaryName_injective) List.nodup_range
    have hlength := (List.subperm_of_subset hnodup hall).length_le
    rw [List.length_map, List.length_range] at hlength
    omega

/-- It is the first that is not taken. -/
theorem freshName?_eq_some {files : Files} {written name : String}
    (h : files.freshName? written = some name) :
    ∃ n, name = temporaryName n ∧ temporaryName n ∉ files.names ++ Path.segments written ∧
      ∀ m < n, temporaryName m ∈ files.names ++ Path.segments written := by
  unfold freshName? at h
  dsimp only at h
  rw [List.find?_map, Option.map_eq_some_iff] at h
  obtain ⟨n, hfind, rfl⟩ := h
  obtain ⟨hfresh, -, htaken⟩ := List.find?_range_eq_some.mp hfind
  exact ⟨n, rfl, by simpa using hfresh, fun m hm => by simpa using htaken m hm⟩

/-- The name stays the same as long as the same names are taken. -/
theorem freshName?_eq {files other : Files} {written name : String}
    (h : files.freshName? written = some name)
    (hnames : ∀ taken, taken ∈ other.names ++ Path.segments written ↔
      taken ∈ files.names ++ Path.segments written) :
    other.freshName? written = some name := by
  obtain ⟨found, hfound⟩ := other.exists_freshName? written
  obtain ⟨m, rfl, hm, hbelow⟩ := freshName?_eq_some hfound
  obtain ⟨n, rfl, hn, hbefore⟩ := freshName?_eq_some h
  -- The first that is free is the same for both, since neither can be before the other.
  rcases Nat.lt_trichotomy m n with hlt | rfl | hgt
  · exact absurd ((hnames _).mpr (hbefore m hlt)) hm
  · exact hfound
  · exact absurd ((hnames _).mp (hbelow n hgt)) hn

/-! ### Temporary files -/

/-- Where the temporary file of a written path is. -/
theorem temporaryPath_eq_ok {files : Files} {written : String} {path : Path} :
    files.temporaryPath written = .ok path ↔ ∃ name directory,
      files.freshName? written = some name ∧
      check (Path.join (Path.join files.workingDirectory.render (Path.parent written)) name) =
        .ok () ∧
      files.enter (files.origin (Path.parent written)) (Path.segments (Path.parent written)) =
        .ok directory ∧
      path = directory ++ [name] := by
  unfold temporaryPath
  dsimp only
  obtain ⟨name, hname⟩ := files.exists_freshName? written
  rw [hname]
  constructor
  · intro h
    obtain ⟨_, hcheck, h⟩ := bind_eq_ok.mp h
    obtain ⟨directory, henter, h⟩ := bind_eq_ok.mp h
    exact ⟨name, directory, rfl, hcheck, henter, (Except.ok.inj h).symm⟩
  · rintro ⟨other, directory, hother, hcheck, henter, rfl⟩
    obtain rfl := Option.some.inj hother
    dsimp only
    rw [hcheck, ok_bind, henter]
    rfl

/-- What a written path names, it names by one of its segments. -/
theorem name_mem_segments {files : Files} {written : String} {unnamed : Fault} {slot : Slot}
    (h : files.slot written unnamed = .ok slot) : slot.name ∈ Path.segments written := by
  obtain ⟨-, before, hnames, -⟩ := slot_eq_ok.mp h
  have hmem : slot.name ∈ (Path.segments written).reverse.dropWhile (· = "") := by
    rw [hnames]
    exact List.mem_cons_self
  exact List.mem_reverse.mp ((List.dropWhile_sublist _).subset hmem)

theorem origin_insert (files : Files) (path : Path) (entry : Entry) (written : String) :
    (files.insert path entry).origin written = files.origin written := rfl

/-- A written path names the same place when there is an entry under a name that it does not
    speak of. -/
theorem slot_insert_fresh {files : Files} {written : String} (unnamed : Fault) {parent : Path}
    {name : String} (entry : Entry) (hname : name ∉ files.names)
    (hwritten : name ∉ Path.segments written) :
    (files.insert (parent ++ [name]) entry).slot written unnamed = files.slot written unnamed := by
  have henter : ∀ before : List String, (∀ segment ∈ before, segment ∈ Path.segments written) →
      (files.insert (parent ++ [name]) entry).enter (files.origin written) before =
        files.enter (files.origin written) before := by
    intro before hbefore
    unfold enter
    rw [walk_insert_fresh entry hname maxLinks _ fun hmem => hwritten (hbefore name hmem)]
  unfold Files.slot
  cases check written with
  | error fault => rw [error_bind, error_bind]
  | ok _ =>
    rw [ok_bind, ok_bind]
    dsimp only
    cases hnames : (Path.segments written).reverse.dropWhile (· = "") with
    | nil => dsimp only
    | cons last before =>
      have hbefore : ∀ segment ∈ before.reverse, segment ∈ Path.segments written := by
        intro segment hsegment
        have hmem : segment ∈ (Path.segments written).reverse.dropWhile (· = "") := by
          rw [hnames]
          exact List.mem_cons_of_mem _ (List.mem_reverse.mp hsegment)
        exact List.mem_reverse.mp ((List.dropWhile_sublist _).subset hmem)
      dsimp only
      rw [origin_insert, henter before.reverse hbefore]

/-- What comes of putting a file where a written path says. -/
def place (files : Files) (written : String) (entry : Entry) : Except Fault Files := do
  let slot ← files.slot written .resourceBusy
  let occupant ← files.occupant slot
  if slot.slash then throw .notADirectory
  if occupant = some .directory then throw .isADirectory
  return files.insert slot.path entry

/-- Moving a temporary file leaves no trace of it. -/
theorem move_insert_fresh {files : Files} {written : String} (parent : Path) {name : String}
    (entry : Entry) (hname : name ∉ files.names) (hwritten : name ∉ Path.segments written) :
    (files.insert (parent ++ [name]) entry).move (parent ++ [name]) written =
      files.place written entry := by
  have hne : parent ++ [name] ≠ [] := by simp
  have hvacant := entry?_eq_none_of_notMem parent hname
  unfold move place
  rw [slot_insert_fresh .resourceBusy entry hname hwritten]
  cases hslot : files.slot written .resourceBusy with
  | error fault => rw [error_bind, error_bind]
  | ok slot =>
    -- The temporary file is not where the written path says, for its name is none of the segments.
    have hother : slot.path ≠ parent ++ [name] := by
      intro heq
      have hlast : [slot.name] = [name] := List.append_inj_right' heq rfl
      exact hwritten ((List.cons.inj hlast).1 ▸ name_mem_segments hslot)
    have hoccupant : (files.insert (parent ++ [name]) entry).occupant slot =
        files.occupant slot := by
      unfold occupant
      rw [entry?_insert_of_ne hother]
    rw [ok_bind, ok_bind, entry?_insert_self hne]
    dsimp only
    rw [hoccupant, erase_insert hne hvacant]

/-! ### Writing -/

/-- A written path that names a place where a file can be put: a place in a directory where no
    directory is, with a place for a temporary file. -/
structure IsTarget (files : Files) (written : String) (slot : Slot) : Prop where
  /-- The written path names the place. -/
  named : files.slot written .resourceBusy = .ok slot
  /-- No slash follows the name. -/
  bare : slot.slash = false
  /-- The name is not too long. -/
  short : ¬ slot.name.utf8ByteSize > maxNameSize
  /-- No directory is there. -/
  free : files.entry? slot.path ≠ some .directory
  /-- There is a place for a temporary file. -/
  temporary : ∃ path, files.temporaryPath written = .ok path

/-- What comes of a temporary file that has been made, if nothing is refused. -/
theorem run_deliver {files : Files} {path : Path} (h : path ≠ []) (written : String)
    (data : Bytes) :
    (deliver path written data).run (files.insert path (.file [] 0o600)) =
      match (files.insert path (.file data 0o600)).move path written with
      | .ok next => (.ok (), next)
      | .error fault => (.error fault, files.insert path (.file data 0o600)) := by
  have hfill : (Disk.sound.fill path data).run (files.insert path (.file [] 0o600)) =
      (.ok (), files.insert path (.file data 0o600)) := Disk.sound.run_fill h data [] 0o600 files
  unfold deliver
  rw [run_bind_of_ok hfill, run_bind_of_ok (Disk.sound.run_settle _ _),
    run_bind_of_ok (run_get _), run_bind_of_ok (Disk.run_allow _ _), run_bind_of_ok (run_get _),
    run_bind, run_liftM_except]
  cases (files.insert path (.file data 0o600)).move path written <;> rfl

/-- What comes of writing on any disk, once the place for the temporary file is known.  Where it
    cannot be delivered, it is taken away again if the disk lets it be. -/
theorem run_writePrivate_on (disk : Disk) {files : Files} {written : String} {path : Path}
    (data : Bytes) (htemporary : files.temporaryPath written = .ok path) :
    (writePrivate written data disk).run files =
      match disk.making files path with
      | some fault => (.error fault, files)
      | none =>
        match (deliver path written data disk).run (files.insert path (.file [] 0o600)) with
        | (.ok (), next) => (.ok (), next)
        | (.error fault, left) =>
          (.error fault, if (disk.removing left path).isNone then left.erase path else left) := by
  have hplace : (liftM (files.temporaryPath written) : ExceptT Fault (StateM Files) Path).run files =
      (.ok path, files) := by
    rw [run_liftM_except, htemporary]
  unfold writePrivate
  rw [run_bind_of_ok (run_get files), run_bind_of_ok hplace, run_bind, disk.run_make]
  cases disk.making files path with
  | some fault => rfl
  | none =>
    dsimp only
    rw [run_tryCatch]
    split
    · rename_i hdeliver
      rw [hdeliver]
    · rename_i hdeliver
      rw [hdeliver, run_bind_of_ok (disk.run_discard path _)]
      rfl

/-- What comes of writing, once the place for the temporary file is known. -/
theorem run_writePrivate_of_temporary {files : Files} {written : String} {path : Path}
    (data : Bytes) (htemporary : files.temporaryPath written = .ok path) :
    (writePrivate written data).run files =
      match files.place written (.file data 0o600) with
      | .ok next => (.ok (), next)
      | .error fault => (.error fault, files) := by
  obtain ⟨name, parent, hname, -, -, rfl⟩ := temporaryPath_eq_ok.mp htemporary
  obtain ⟨hfiles, hwritten⟩ := notMem_of_freshName? hname
  have hpath : parent ++ [name] ≠ [] := by simp
  have hmove := move_insert_fresh parent (.file data 0o600) hfiles hwritten
  have herase := erase_insert hpath (entry?_eq_none_of_notMem parent hfiles) (.file data 0o600)
  have hrun : (writePrivate written data).run files =
      match (deliver (parent ++ [name]) written data).run
        (files.insert (parent ++ [name]) (.file [] 0o600)) with
      | (.ok (), next) => (.ok (), next)
      | (.error fault, left) => (.error fault, left.erase (parent ++ [name])) :=
    run_writePrivate_on .sound data htemporary
  rw [hrun, run_deliver hpath, hmove]
  -- Where moving fails, the temporary file is taken away again, and nothing is left of it.
  cases files.place written (.file data 0o600) with
  | ok next => rfl
  | error fault =>
    dsimp only
    rw [herase]

/-- Without a place for the temporary file, nothing is touched. -/
theorem run_writePrivate_of_error {files : Files} {written : String} {fault : Fault} (data : Bytes)
    (htemporary : files.temporaryPath written = .error fault) (disk : Disk := .sound) :
    (writePrivate written data disk).run files = (.error fault, files) := by
  unfold writePrivate
  simp only [run_bind, run_get, run_liftM_except, htemporary]

/-- A file can be put exactly at a target, once there is a place for a temporary file. -/
theorem place_eq_ok {files next : Files} {written : String} {entry : Entry} :
    files.place written entry = .ok next ↔ ∃ slot, files.slot written .resourceBusy = .ok slot ∧
      slot.slash = false ∧ ¬ slot.name.utf8ByteSize > maxNameSize ∧
      files.entry? slot.path ≠ some .directory ∧ next = files.insert slot.path entry := by
  unfold place
  rw [bind_eq_ok]
  refine exists_congr fun slot => and_congr_right fun _ => ?_
  unfold occupant
  -- The checks one after the other: the length of the name, the slash, the directory.
  by_cases hsize : slot.name.utf8ByteSize > maxNameSize
  · rw [if_pos hsize]
    exact ⟨nofun, fun h => absurd hsize h.2.1⟩
  · rw [if_neg hsize, ok_bind]
    cases hslash : slot.slash with
    | true => exact ⟨nofun, nofun⟩
    | false =>
      by_cases hfree : files.entry? slot.path = some .directory
      · rw [if_pos hfree]
        exact ⟨nofun, fun h => absurd hfree h.2.2.1⟩
      · rw [if_neg hfree]
        exact ⟨fun h => ⟨rfl, hsize, hfree, (Except.ok.inj h).symm⟩,
          fun ⟨_, _, _, h⟩ => congrArg Except.ok h.symm⟩

/-- **A file can be put at a target.** -/
theorem run_writePrivate {files : Files} {written : String} {slot : Slot}
    (h : files.IsTarget written slot) (data : Bytes) :
    (writePrivate written data).run files =
      (.ok (), files.insert slot.path (.file data 0o600)) := by
  obtain ⟨path, htemporary⟩ := h.temporary
  have hplace : files.place written (.file data 0o600) =
      .ok (files.insert slot.path (.file data 0o600)) :=
    place_eq_ok.mpr ⟨slot, h.named, h.bare, h.short, h.free, rfl⟩
  rw [run_writePrivate_of_temporary data htemporary, hplace]

/-- **Writing puts a file at a target or leaves everything as it was.** -/
theorem writePrivate_cases (files : Files) (written : String) (data : Bytes) :
    (∃ fault, (writePrivate written data).run files = (.error fault, files)) ∨
      ∃ slot, files.IsTarget written slot ∧
        (writePrivate written data).run files =
          (.ok (), files.insert slot.path (.file data 0o600)) := by
  cases htemporary : files.temporaryPath written with
  | error fault => exact .inl ⟨fault, run_writePrivate_of_error data htemporary⟩
  | ok path =>
    cases hplace : files.place written (.file data 0o600) with
    | error fault =>
      refine .inl ⟨fault, ?_⟩
      rw [run_writePrivate_of_temporary data htemporary, hplace]
    | ok next =>
      obtain ⟨slot, hnamed, hbare, hshort, hfree, rfl⟩ := place_eq_ok.mp hplace
      have htarget : files.IsTarget written slot := ⟨hnamed, hbare, hshort, hfree, path, htemporary⟩
      exact .inr ⟨slot, htarget, run_writePrivate htarget data⟩

/-! ### After writing -/

/-- What was put at a target is what is read there. -/
theorem IsTarget.read {files : Files} {written : String} {slot : Slot}
    (h : files.IsTarget written slot) {data : Bytes} {mode : Nat}
    (hentry : files.entry? slot.path = some (.file data mode)) :
    files.read written = .ok data := by
  unfold Files.read
  rw [(find_of_slot h.named h.bare h.short).1 data mode hentry]
  rfl

theorem IsTarget.path_ne_nil {files : Files} {written : String} {slot : Slot}
    (_ : files.IsTarget written slot) : slot.path ≠ [] := by
  simp [Slot.path]

/-- A target in a directory that is there stays one when a file has been put there: the same names
    are taken as before. -/
theorem IsTarget.insert {files : Files} {written : String} {slot : Slot}
    (h : files.IsTarget written slot) (hparent : files.entry? slot.directory = some .directory)
    (hpath : files.IsReplaceable slot.path) (data : Bytes) (mode : Nat) :
    (files.insert slot.path (.file data mode)).IsTarget written slot := by
  refine ⟨slot_insert_file hpath data mode h.named, h.bare, h.short, ?_, ?_⟩
  · rw [entry?_insert_self hpath.1]
    exact nofun
  · obtain ⟨path, htemporary⟩ := h.temporary
    obtain ⟨name, directory, hname, hcheck, henter, rfl⟩ := temporaryPath_eq_ok.mp htemporary
    refine ⟨_, temporaryPath_eq_ok.mpr ⟨name, directory, ?_, hcheck, ?_, rfl⟩⟩
    -- The path of the file brings no new names: its directory is spoken of where it is, and its own
    -- name is a segment.
    · apply freshName?_eq hname
      intro taken
      rw [List.mem_append, List.mem_append, mem_names_insert hpath]
      refine ⟨?_, fun h => h.imp_left .inr⟩
      rintro ((htaken | htaken) | htaken)
      · rcases List.mem_append.mp htaken with hdirectory | hlast
        · refine .inl (mem_names_of_entry ?_ hparent (.inl hdirectory))
          exact List.ne_nil_of_mem hdirectory
        · rw [List.mem_singleton.mp hlast]
          exact .inr (name_mem_segments h.named)
      · exact .inl htaken
      · exact .inr htaken
    · exact enter_eq_ok.mpr (walk_insert_file hpath data mode (enter_eq_ok.mp henter))

end Lockbox.Files
