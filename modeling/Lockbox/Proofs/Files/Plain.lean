import Lockbox.Proofs.Files.Replace

namespace Lockbox.Files

/-!
# Files without links

Without links a written path leads where its text says, so all ways to write one path lead to one
file.  A file that is put at a target is read under all of them, and under no others.

* `walk_eq_absolute`, `path_of_find` — where a written path leads.
* `IsTarget.path_eq_absolute` — where a file is put.
* `read_insert_file` — what is read once a file has been put somewhere.
-/

/-! ### Walks -/

/-- Are there no links? -/
def IsPlain (files : Files) : Prop := ∀ path target, files.entry? path ≠ some (.link target)

/-- An empty segment or a dot is no step. -/
theorem step_skip (names : List String) {segment : String} (h : segment = "" ∨ segment = ".") :
    Path.step names segment = names := if_pos h

/-- Two dots are a step up. -/
theorem step_up (directory : Path) :
    Path.step directory.reverse ".." = directory.dropLast.reverse := List.tail_reverse

/-- A name is a step down. -/
theorem step_name (directory : Path) {segment : String} (h : IsName segment) :
    Path.step directory.reverse segment = (directory ++ [segment]).reverse := by
  obtain ⟨hempty, hdot, hdots⟩ := h
  have hstep : Path.step directory.reverse segment = segment :: directory.reverse :=
    (if_neg (not_or.mpr ⟨hempty, hdot⟩)).trans (if_neg hdots)
  rw [hstep, List.reverse_append]
  rfl

/-- Without links a walk gets where its segments say. -/
theorem walk_eq_absolute {files : Files} (hplain : files.IsPlain) {links : Nat} {directory : Path}
    {segments : List String} {place : Place}
    (h : files.walk .look links directory segments = .ok place) :
    place.path = (segments.foldl Path.step directory.reverse).reverse := by
  replace h := Leads.of_walk h
  -- Each step of the way is what its segment does to a path; without links there are no other
  -- steps.
  induction h with
  | nil =>
    rw [List.foldl_nil, List.reverse_reverse]
    rfl
  | skip hskip _ ih =>
    rw [List.foldl_cons, step_skip _ hskip]
    exact ih
  | up _ ih =>
    rw [List.foldl_cons, step_up]
    exact ih
  | vacant hname _ _ =>
    rw [List.foldl_cons, step_name _ hname, List.foldl_nil, List.reverse_reverse]
    rfl
  | file hname _ _ =>
    rw [List.foldl_cons, step_name _ hname, List.foldl_nil, List.reverse_reverse]
    rfl
  | down hname _ _ _ ih =>
    rw [List.foldl_cons, step_name _ hname]
    exact ih
  | follow _ _ hentry _ _ => exact absurd hentry (hplain _ _)

/-! ### Written paths -/

variable {files : Files} {written : String}

/-- A written path that leads somewhere is one that can name something, and a walk. -/
theorem find_eq_ok {place : Place} :
    files.find .look written = .ok place ↔ check written = .ok () ∧
      files.walk .look maxLinks (files.origin written) (Path.segments written) = .ok place := by
  unfold find
  rw [bind_eq_ok]
  exact ⟨fun ⟨_, hcheck, hwalk⟩ => ⟨hcheck, hwalk⟩, fun ⟨hcheck, hwalk⟩ => ⟨(), hcheck, hwalk⟩⟩

/-- A written path leads to the path that it stands for. -/
theorem path_of_find (hplain : files.IsPlain) {place : Place}
    (h : files.find .look written = .ok place) :
    place.path = Path.absolute files.workingDirectory written :=
  walk_eq_absolute hplain (find_eq_ok.mp h).2

/-- What is read is the file that a written path leads to. -/
theorem read_eq_ok {data : Bytes} :
    files.read written = .ok data ↔
      ∃ path mode, files.find .look written = .ok (.found path (.file data mode)) := by
  unfold read
  rw [bind_eq_ok]
  constructor
  · rintro ⟨place, hfind, hread⟩
    cases place with
    | vacant path => cases hread
    | found path entry =>
      cases entry with
      | directory => cases hread
      | link target => cases hread
      | file content mode =>
        obtain rfl := Except.ok.inj hread
        exact ⟨path, mode, hfind⟩
  · rintro ⟨path, mode, hfind⟩
    exact ⟨_, hfind, rfl⟩

/-- What is read is at the path that the written path stands for. -/
theorem entry?_of_read (hplain : files.IsPlain) {data : Bytes} (h : files.read written = .ok data) :
    ∃ mode, files.entry? (Path.absolute files.workingDirectory written) =
      some (.file data mode) := by
  obtain ⟨path, mode, hfind⟩ := read_eq_ok.mp h
  have hpath : path = Path.absolute files.workingDirectory written := path_of_find hplain hfind
  rw [← hpath]
  exact ⟨mode, (Leads.of_walk (find_eq_ok.mp hfind).2).entry⟩

/-! ### Targets -/

namespace IsTarget

variable {slot : Slot}

/-- At a target there is a file or nothing. -/
theorem isReplaceable (h : files.IsTarget written slot) (hplain : files.IsPlain) :
    files.IsReplaceable slot.path := by
  refine ⟨h.path_ne_nil, ?_⟩
  cases hentry : files.entry? slot.path with
  | none => exact .inl rfl
  | some entry =>
    cases entry with
    | directory => exact absurd hentry h.free
    | link target => exact absurd hentry (hplain slot.path target)
    | file data mode => exact .inr ⟨data, mode, rfl⟩

/-- A target is at the path that the written path stands for. -/
theorem path_eq_absolute (h : files.IsTarget written slot) (hplain : files.IsPlain) :
    slot.path = Path.absolute files.workingDirectory written := by
  obtain ⟨hfile, hvacant⟩ := find_of_slot h.named h.bare h.short
  -- Whatever is at the target, the written path leads there, and a walk that gets somewhere gets
  -- where the text says.
  rcases (h.isReplaceable hplain).2 with hnone | ⟨data, mode, hentry⟩
  · exact path_of_find hplain (hvacant hnone)
  · exact path_of_find hplain (hfile data mode hentry)

/-- Where a written path leads to nothing, nothing is at its target. -/
theorem vacant_of_exists? (h : files.IsTarget written slot) (hplain : files.IsPlain)
    (hexists : files.exists? written = .ok false) : files.entry? slot.path = none := by
  rcases (h.isReplaceable hplain).2 with hnone | ⟨data, mode, hentry⟩
  · exact hnone
  -- A file would have been seen.
  · rw [Files.exists?, (find_of_slot h.named h.bare h.short).1 data mode hentry] at hexists
    cases hexists

end IsTarget

/-! ### Files put somewhere -/

/-- Where nothing is, there are no links. -/
theorem isPlain_empty (workingDirectory : Path) : IsPlain { workingDirectory } := by
  intro path target
  unfold entry?
  split
  · exact nofun
  · rw [Std.ExtTreeMap.getElem?_empty]
    exact nofun

/-- A file that is put somewhere is no link. -/
theorem IsPlain.insert (h : files.IsPlain) {path : Path} (hpath : path ≠ []) (data : Bytes)
    (mode : Nat) : (files.insert path (.file data mode)).IsPlain := by
  intro other target
  by_cases hother : other = path
  · rw [hother, entry?_insert_self hpath]
    exact nofun
  · rw [entry?_insert_of_ne hother]
    exact h other target

/-- A file that is put somewhere is read under the written paths that stand for its path, and no
    others. -/
theorem read_insert_file (hplain : files.IsPlain) {path : Path} (hpath : files.IsReplaceable path)
    {old : Bytes} (h : files.read written = .ok old) (data : Bytes) (mode : Nat) :
    (files.insert path (.file data mode)).read written =
      .ok (if Path.absolute files.workingDirectory written = path then data else old) := by
  obtain ⟨found, permissions, hfind⟩ := read_eq_ok.mp h
  have hfound : found = Path.absolute files.workingDirectory written := path_of_find hplain hfind
  obtain ⟨hcheck, hwalk⟩ := find_eq_ok.mp hfind
  have hafter := find_eq_ok.mpr ⟨hcheck, walk_insert_file hpath data mode hwalk⟩
  rw [read_eq_ok, ← hfound]
  -- Where the old way ended decides which file the new one ends at.
  by_cases heq : found = path
  · refine ⟨path, mode, ?_⟩
    rw [if_pos heq, hafter]
    exact congrArg Except.ok (if_pos heq)
  · refine ⟨found, permissions, ?_⟩
    rw [if_neg heq, hafter]
    exact congrArg Except.ok (if_neg heq)

end Lockbox.Files
