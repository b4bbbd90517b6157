import Lockbox.Proofs.Files.Create
import Lockbox.Proofs.Files.Plain

namespace Lockbox.Files

/-!
# Trees that differ in the contents of one file

Where a written path leads, and what can be put there, depends on which entries there are, and not
on what is in a file.  So two trees that differ in the contents of one file can be told apart only
by reading it, and what is done to both leaves them alike.

* `Swapped`, `Twins` — trees that differ in the contents of one file, at most.
* `Swapped.find`, `slot`, `exists?`, `temporaryPath` — what is the same in both.
* `Twins.read` — what is not.
* `Twins.insert`, `create`, `writePrivate` — what is done to both.
-/

/-! ### Entries at different paths -/

/-- Entries at different paths can be put in any order. -/
theorem insert_insert_of_ne (files : Files) {path other : Path} (h : other ≠ path)
    (first second : Entry) :
    (files.insert path first).insert other second =
      (files.insert other second).insert path first := by
  have hentries : (files.entries.insert path first).insert other second =
      (files.entries.insert other second).insert path first := by
    refine Std.ExtTreeMap.ext_getElem? fun found => ?_
    simp only [Std.ExtTreeMap.getElem?_insert]
    by_cases hother : compare other found = .eq
    · obtain rfl := Std.LawfulEqCmp.eq_of_compare hother
      rw [if_pos hother, if_neg fun heq => h (Std.LawfulEqCmp.eq_of_compare heq).symm,
        if_pos hother]
    · rw [if_neg hother, if_neg hother]
  unfold insert
  rw [hentries]

/-! ### Trees -/

/-- Do two trees differ in the contents of the file at a path? -/
def Swapped (path : Path) (old new : Bytes) (files other : Files) : Prop :=
  ∃ mode mode', files.entry? path = some (.file old mode) ∧
    other = files.insert path (.file new mode')

/-- Are two trees the same, or do they differ in the contents of the file at a path? -/
def Twins (path : Path) (old new : Bytes) (files other : Files) : Prop :=
  other = files ∨ Swapped path old new files other

/-- Where a walk ends once a file has been put in place of another. -/
def Place.swap (path : Path) (entry : Entry) : Place → Place
  | .found reached (.file data mode) =>
    .found reached (if reached = path then entry else .file data mode)
  | place => place

/-- A walk that ends at a file does so in the other tree. -/
theorem Place.swap_file (path reached : Path) (new data : Bytes) (mode mode' : Nat) :
    ∃ content permissions, Place.swap path (.file new mode') (.found reached (.file data mode)) =
      .found reached (.file content permissions) := by
  unfold Place.swap
  dsimp only
  split
  · exact ⟨_, _, rfl⟩
  · exact ⟨_, _, rfl⟩

namespace Swapped

variable {path : Path} {old new : Bytes} {files other : Files}

theorem workingDirectory (h : Swapped path old new files other) :
    other.workingDirectory = files.workingDirectory := by
  obtain ⟨_, _, -, rfl⟩ := h
  rfl

theorem origin (h : Swapped path old new files other) (written : String) :
    other.origin written = files.origin written := by
  unfold Files.origin
  rw [h.workingDirectory]

/-- The root is no file. -/
theorem path_ne_nil (h : Swapped path old new files other) : path ≠ [] := by
  rintro rfl
  obtain ⟨_, _, hfile, -⟩ := h
  cases hfile

/-! ### Walks -/

/-- Whatever a walk is for, it takes the same way through both trees. -/
theorem walkWith {mode mode' : Nat} (hfile : files.entry? path = some (.file old mode))
    (purpose : Purpose) {jump leap : Path → List String → Except Fault Place}
    (hjump : ∀ directory segments,
      leap directory segments = (jump directory segments).map (Place.swap path (.file new mode')))
    (directory : Path) (segments : List String) :
    (files.insert path (.file new mode')).walkWith purpose leap directory segments =
      (files.walkWith purpose jump directory segments).map
        (Place.swap path (.file new mode')) := by
  have hne : path ≠ [] := by
    rintro rfl
    cases hfile
  -- On the segments: what is met with is the same in both trees, up to what is in the file.
  induction segments generalizing directory with
  | nil => rfl
  | cons segment rest ih =>
    unfold Files.walkWith
    by_cases hskip : segment = "" ∨ segment = "."
    · rw [if_pos hskip, if_pos hskip]
      exact ih directory
    rw [if_neg hskip, if_neg hskip]
    by_cases hup : segment = ".."
    · rw [if_pos hup, if_pos hup]
      exact ih directory.dropLast
    rw [if_neg hup, if_neg hup]
    by_cases hslash : purpose.makesFile ∧ rest ≠ [] ∧ rest.all (· = "")
    · rw [if_pos hslash, if_pos hslash]
      rfl
    rw [if_neg hslash, if_neg hslash]
    by_cases hsize : segment.utf8ByteSize > maxNameSize
    · rw [if_pos hsize, if_pos hsize]
      rfl
    rw [if_neg hsize, if_neg hsize]
    dsimp only
    by_cases hpath : directory ++ [segment] = path
    · rw [hpath, entry?_insert_self hne, hfile]
      dsimp only
      by_cases hrest : rest = []
      · rw [if_pos hrest, if_pos hrest]
        exact congrArg (fun entry => Except.ok (Place.found path entry)) (if_pos rfl).symm
      · rw [if_neg hrest, if_neg hrest]
        rfl
    · rw [entry?_insert_of_ne hpath]
      cases files.entry? (directory ++ [segment]) with
      | none =>
        dsimp only
        split <;> rfl
      | some entry =>
        cases entry with
        | directory => exact ih _
        | file data permissions =>
          dsimp only
          by_cases hrest : rest = []
          · rw [if_pos hrest]
            exact congrArg (fun entry => Except.ok (Place.found _ entry)) (if_neg hpath).symm
          · rw [if_neg hrest]
            rfl
        | link target =>
          dsimp only
          split
          · rfl
          · exact hjump _ _

/-- A walk through any number of links ends at the same place of both trees. -/
theorem walk {mode mode' : Nat} (hfile : files.entry? path = some (.file old mode))
    (purpose : Purpose) (links : Nat) (directory : Path) (segments : List String) :
    (files.insert path (.file new mode')).walk purpose links directory segments =
      (files.walk purpose links directory segments).map (Place.swap path (.file new mode')) := by
  induction links generalizing directory segments with
  | zero =>
    have hloop : ∀ (directory : Path) (segments : List String),
        (Except.error .linkLoop : Except Fault Place) =
          (Except.error .linkLoop).map (Place.swap path (.file new mode')) := fun _ _ => rfl
    exact walkWith hfile purpose hloop directory segments
  | succ links ih => exact walkWith hfile purpose ih directory segments

/-- A written path leads to the same place of both trees. -/
theorem find (h : Swapped path old new files other) : ∃ mode, ∀ purpose written,
    other.find purpose written =
      (files.find purpose written).map (Place.swap path (.file new mode)) := by
  obtain ⟨_, mode', hfile, rfl⟩ := h
  refine ⟨mode', fun purpose written => ?_⟩
  unfold Files.find
  cases check written with
  | error fault => rfl
  | ok _ => exact walk hfile purpose _ _ _

/-- The same directories can be entered. -/
theorem enter (h : Swapped path old new files other) (directory : Path) (segments : List String) :
    other.enter directory segments = files.enter directory segments := by
  obtain ⟨_, _, hfile, rfl⟩ := h
  unfold Files.enter
  rw [walk hfile]
  cases files.walk .look maxLinks directory segments with
  | error fault => rfl
  | ok place =>
    cases place with
    | vacant path => rfl
    | found reached entry =>
      cases entry with
      | directory => rfl
      | link target => rfl
      | file data mode =>
        obtain ⟨_, _, hswap⟩ := Place.swap_file path reached new data mode _
        dsimp only [Except.map]
        rw [hswap]
        rfl

/-- A written path names the same place of both trees. -/
theorem slot (h : Swapped path old new files other) (written : String) (unnamed : Fault) :
    other.slot written unnamed = files.slot written unnamed := by
  unfold Files.slot
  simp only [h.enter, h.origin]

/-- A written path leads to something in one tree if it does in the other. -/
theorem exists? (h : Swapped path old new files other) (written : String) :
    other.exists? written = files.exists? written := by
  obtain ⟨_, hfind⟩ := h.find
  unfold Files.exists?
  rw [hfind]
  cases files.find .look written with
  | error fault => rfl
  | ok place =>
    cases place with
    | vacant path => rfl
    | found reached entry => cases entry <;> rfl

/-! ### Temporary files -/

/-- The same names are taken. -/
theorem freshName? (h : Swapped path old new files other) (written : String) :
    other.freshName? written = files.freshName? written := by
  have hne := h.path_ne_nil
  obtain ⟨mode, mode', hfile, rfl⟩ := h
  have hpath : files.IsReplaceable path := ⟨hne, .inr ⟨old, mode, hfile⟩⟩
  obtain ⟨name, hname⟩ := files.exists_freshName? written
  rw [hname]
  refine freshName?_eq hname fun taken => ?_
  rw [List.mem_append, List.mem_append, mem_names_insert hpath]
  refine ⟨fun htaken => htaken.imp_left fun hmem => ?_, fun htaken => htaken.imp_left .inr⟩
  exact hmem.elim (fun hmem => mem_names_of_entry hne hfile (.inl hmem)) fun hmem => hmem

/-- A temporary file has the same place in both trees. -/
theorem temporaryPath (h : Swapped path old new files other) (written : String) :
    other.temporaryPath written = files.temporaryPath written := by
  unfold Files.temporaryPath
  simp only [h.freshName?, h.workingDirectory, h.enter, h.origin]

end Swapped

/-! ### Reading and writing -/

namespace Twins

variable {path : Path} {old new : Bytes} {files other : Files}

theorem workingDirectory (h : Twins path old new files other) :
    other.workingDirectory = files.workingDirectory := by
  rcases h with rfl | hswapped
  · rfl
  · exact hswapped.workingDirectory

theorem exists? (h : Twins path old new files other) (written : String) :
    other.exists? written = files.exists? written := by
  rcases h with rfl | hswapped
  · rfl
  · exact hswapped.exists? written

/-- What is read is the same, unless it is the file whose contents differ. -/
theorem read (h : Twins path old new files other) (written : String) :
    other.read written = files.read written ∨
      (∃ mode, files.find .look written = .ok (.found path (.file old mode))) ∧
        files.read written = .ok old ∧ other.read written = .ok new := by
  rcases h with rfl | hswapped
  · exact .inl rfl
  obtain ⟨mode', hfind⟩ := hswapped.find
  obtain ⟨mode, -, hfile, -⟩ := hswapped
  unfold Files.read
  rw [hfind]
  cases hplace : files.find .look written with
  | error fault => exact .inl rfl
  | ok place =>
    cases place with
    | vacant path => exact .inl rfl
    | found found entry =>
      cases entry with
      | directory => exact .inl rfl
      | link target => exact .inl rfl
      | file data permissions =>
        dsimp only [Except.map, Place.swap]
        by_cases hfound : found = path
        · obtain rfl := hfound
          have hentry := (Leads.of_walk (find_eq_ok.mp hplace).2).entry
          rw [hfile] at hentry
          obtain ⟨rfl, rfl⟩ := Entry.file.inj (Option.some.inj hentry)
          rw [if_pos rfl]
          exact .inr ⟨⟨mode, rfl⟩, rfl, rfl⟩
        · rw [if_neg hfound]
          exact .inl rfl

/-- The same entry can be put into both trees. -/
theorem insert (h : Twins path old new files other) (target : Path) (entry : Entry) :
    Twins path old new (files.insert target entry) (other.insert target entry) := by
  rcases h with rfl | ⟨mode, mode', hfile, rfl⟩
  · exact .inl rfl
  by_cases htarget : target = path
  · obtain rfl := htarget
    exact .inl (insert_insert_self files target _ _)
  · refine .inr ⟨mode, mode', ?_, insert_insert_of_ne files htarget _ _⟩
    rw [entry?_insert_of_ne (Ne.symm htarget), hfile]

/-- A file can be made in both trees or in none. -/
theorem create (h : Twins path old new files other) (written : String) (data : Bytes) :
    (∃ fault, files.create written data = .error fault ∧
        other.create written data = .error fault) ∨
      ∃ next after, files.create written data = .ok next ∧ other.create written data = .ok after ∧
        Twins path old new next after := by
  rcases h with rfl | hswapped
  · cases other.create written data with
    | error fault => exact .inl ⟨fault, rfl, rfl⟩
    | ok next => exact .inr ⟨next, next, rfl, rfl, .inl rfl⟩
  obtain ⟨mode, hfind⟩ := hswapped.find
  unfold Files.create
  rw [hfind]
  cases files.find .create written with
  | error fault => exact .inl ⟨fault, rfl, rfl⟩
  | ok place =>
    cases place with
    | vacant target => exact .inr ⟨_, _, rfl, rfl, insert (.inr hswapped) target _⟩
    | found reached entry =>
      -- Whatever is there is in the way.
      refine .inl ⟨.alreadyExists, rfl, ?_⟩
      cases entry <;> rfl

/-- An entry can be put where a written path says in both trees or in none. -/
theorem place (h : Twins path old new files other) (written : String) (entry : Entry) :
    (∃ fault, files.place written entry = .error fault ∧
        other.place written entry = .error fault) ∨
      ∃ next after, files.place written entry = .ok next ∧ other.place written entry = .ok after ∧
        Twins path old new next after := by
  have hslot : other.slot written .resourceBusy = files.slot written .resourceBusy := by
    rcases h with rfl | hswapped
    · rfl
    · exact hswapped.slot written .resourceBusy
  -- A directory is in both trees or in none.
  have hfree : ∀ target,
      other.entry? target = some .directory ↔ files.entry? target = some .directory := by
    intro target
    rcases h with rfl | ⟨mode, mode', hfile, rfl⟩
    · rfl
    by_cases htarget : target = path
    · rw [htarget, hfile]
      have hne : path ≠ [] := by
        rintro rfl
        cases hfile
      rw [entry?_insert_self hne]
      exact ⟨nofun, nofun⟩
    · rw [entry?_insert_of_ne htarget]
  unfold Files.place
  rw [hslot]
  cases files.slot written .resourceBusy with
  | error fault => exact .inl ⟨fault, rfl, rfl⟩
  | ok slot =>
    rw [ok_bind, ok_bind]
    unfold occupant
    -- The checks one after the other: the length of the name, the slash, the directory.
    by_cases hsize : slot.name.utf8ByteSize > maxNameSize
    · rw [if_pos hsize, if_pos hsize]
      exact .inl ⟨_, rfl, rfl⟩
    rw [if_neg hsize, if_neg hsize, ok_bind, ok_bind]
    cases slot.slash with
    | true => exact .inl ⟨_, rfl, rfl⟩
    | false =>
      by_cases hdirectory : files.entry? slot.path = some .directory
      · rw [if_pos hdirectory, if_pos ((hfree slot.path).mpr hdirectory)]
        exact .inl ⟨_, rfl, rfl⟩
      · rw [if_neg hdirectory, if_neg fun hother => hdirectory ((hfree slot.path).mp hother)]
        exact .inr ⟨_, _, rfl, rfl, h.insert slot.path entry⟩

/-- **Writing a file comes to the same in both trees.** -/
theorem writePrivate (h : Twins path old new files other) (written : String) (data : Bytes) :
    ((writePrivate written data).run other).1 = ((writePrivate written data).run files).1 ∧
      Twins path old new ((writePrivate written data).run files).2
        ((writePrivate written data).run other).2 := by
  have htemporary : other.temporaryPath written = files.temporaryPath written := by
    rcases h with rfl | hswapped
    · rfl
    · exact hswapped.temporaryPath written
  cases hpath : files.temporaryPath written with
  | error fault =>
    rw [run_writePrivate_of_error data hpath,
      run_writePrivate_of_error data (htemporary.trans hpath)]
    exact ⟨rfl, h⟩
  | ok temporary =>
    rw [run_writePrivate_of_temporary data hpath,
      run_writePrivate_of_temporary data (htemporary.trans hpath)]
    rcases h.place written (.file data 0o600) with
      ⟨fault, hfiles, hother⟩ | ⟨next, after, hfiles, hother, htwins⟩
    · rw [hfiles, hother]
      exact ⟨rfl, h⟩
    · rw [hfiles, hother]
      exact ⟨rfl, htwins⟩

end Twins

end Lockbox.Files
