import Lockbox.Proofs.Files.Create

namespace Lockbox.Files

/-!
# Names that are taken

A written path is free where it leads to nothing.  Its name may be taken all the same, by a link
that leads nowhere.  A file that is put somewhere takes a name and frees no path.

* `Differs` — trees that differ in one entry.
* `IsFree`, `Misses` — written paths that lead to nothing, and the walks along them.
* `Differs.isFree`, `PutsFile` — a file that is put somewhere frees no path.
* `Differs.not_isFree`, `not_isFree_of_file` — where a file is under a name, the path is not free.
* `slot_of_vacant` — the name under which a file is made.
* `IsTakenBy` — what is under a name; `not_vacant`, `link_of_isFree` — what it rules out.
-/

/-! ### One entry -/

/-- Is there an entry at a path, and is everything else what it was? -/
structure Differs (files : Files) (path : Path) (entry : Entry) (next : Files) : Prop where
  /-- The entry is there. -/
  here : next.entry? path = some entry
  /-- Nothing else has been changed, made or removed. -/
  elsewhere : ∀ other, other ≠ path → next.entry? other = files.entry? other
  /-- Nobody has gone anywhere. -/
  workingDirectory : next.workingDirectory = files.workingDirectory

theorem differs_insert (files : Files) {path : Path} (h : path ≠ []) (entry : Entry) :
    files.Differs path entry (files.insert path entry) :=
  ⟨entry?_insert_self h, fun _ hother => entry?_insert_of_ne hother, rfl⟩

variable {files next : Files} {written : String} {path : Path} {data : Bytes} {mode : Nat}

theorem Differs.origin {entry : Entry} (h : files.Differs path entry next) (written : String) :
    next.origin written = files.origin written := by
  unfold Files.origin
  rw [h.workingDirectory]

/-! ### Free paths -/

/-- Does a written path lead to nothing? -/
def IsFree (files : Files) (written : String) : Prop := files.exists? written = .ok false

/-- Is this where a walk ends that leads to nothing? -/
def Misses (outcome : Except Fault Place) : Prop :=
  (∃ path, outcome = .ok (.vacant path)) ∨ outcome = .error .notFound

theorem isFree_iff : files.IsFree written ↔ Misses (files.find .look written) := by
  unfold IsFree exists? Misses
  cases files.find .look written with
  | error fault => cases fault <;> simp
  | ok place => cases place <;> simp

/-- A written path is free if it names nothing, or if a walk leads to nothing. -/
theorem isFree_iff_walk : files.IsFree written ↔
    check written = .error .notFound ∨ check written = .ok () ∧
      Misses (files.walk .look maxLinks (files.origin written) (Path.segments written)) := by
  rw [isFree_iff, find]
  cases check written with
  | error fault => simp [Misses]
  | ok _ => simp

/-! ### Files put somewhere -/

/-- A walk after a file has been put somewhere is the walk from before, or it is stopped by the
    file. -/
theorem Differs.walk_cases (h : files.Differs path (.file data mode) next) (links : Nat)
    (directory : Path) (segments : List String) :
    next.walk .look links directory segments = files.walk .look links directory segments ∨
      next.walk .look links directory segments = .ok (.found path (.file data mode)) ∨
      next.walk .look links directory segments = .error .notADirectory := by
  induction links, directory, segments using walk_induction with
  | nil => exact .inl (by rw [walk_nil, walk_nil])
  | skip hskip ih =>
    rw [walk_skip _ _ _ hskip, walk_skip _ _ _ hskip]
    exact ih
  | up ih =>
    rw [walk_up, walk_up]
    exact ih
  | @name links directory segment rest hname down follow =>
    rw [walk_name _ _ _ hname, walk_name _ _ _ hname]
    split
    · exact .inl rfl
    · by_cases hpath : directory ++ [segment] = path
      · rw [hpath, h.here]
        dsimp only
        split
        · exact .inr (.inl rfl)
        · exact .inr (.inr rfl)
      · rw [h.elsewhere _ hpath]
        cases files.entry? (directory ++ [segment]) with
        | none => exact .inl rfl
        | some entry =>
          cases entry with
          | directory => exact down
          | file content permissions => exact .inl rfl
          | link target =>
            cases links with
            | zero => exact .inl rfl
            | succ links => exact follow links rfl _ _

/-- **A file that is put somewhere frees no path.** -/
theorem Differs.isFree (h : files.Differs path (.file data mode) next)
    (hfree : next.IsFree written) : files.IsFree written := by
  rw [isFree_iff_walk, h.origin] at hfree
  refine isFree_iff_walk.mpr (hfree.imp_right fun ⟨hcheck, hmisses⟩ => ⟨hcheck, ?_⟩)
  rcases h.walk_cases maxLinks (files.origin written) (Path.segments written) with
    hsame | hfound | hstopped
  · rwa [hsame] at hmisses
  · simp [hfound, Misses] at hmisses
  · simp [hstopped, Misses] at hmisses

/-- Is there a file at a path? -/
def IsFile (files : Files) (path : Path) : Prop :=
  ∃ data mode, files.entry? path = some (.file data mode)

/-- Has a file been put somewhere, in place of a file, a link or nothing? -/
def PutsFile (files next : Files) : Prop :=
  ∃ path data mode, files.entry? path ≠ some .directory ∧
    files.Differs path (.file data mode) next

theorem IsTarget.putsFile {slot : Slot} (h : files.IsTarget written slot) (data : Bytes) :
    files.PutsFile (files.insert slot.path (.file data 0o600)) :=
  ⟨slot.path, data, 0o600, h.free, files.differs_insert h.path_ne_nil _⟩

theorem putsFile_of_create (h : files.create written data = .ok next) : files.PutsFile next := by
  obtain ⟨path, hfind, rfl⟩ := create_eq_ok.mp h
  obtain ⟨-, hne, hnone⟩ := look_of_vacant hfind
  exact ⟨path, data, 0o644, by rw [hnone]; exact nofun, files.differs_insert hne _⟩

theorem PutsFile.isFree (h : files.PutsFile next) (hfree : next.IsFree written) :
    files.IsFree written := by
  obtain ⟨path, data, mode, -, hdiffers⟩ := h
  exact hdiffers.isFree hfree

/-- Where a file was, there is still one. -/
theorem PutsFile.isFile (h : files.PutsFile next) (hfile : files.IsFile path) :
    next.IsFile path := by
  obtain ⟨place, data, mode, -, hdiffers⟩ := h
  by_cases hplace : path = place
  · rw [hplace]
    exact ⟨data, mode, hdiffers.here⟩
  · obtain ⟨content, permissions, hentry⟩ := hfile
    exact ⟨content, permissions, (hdiffers.elsewhere path hplace).trans hentry⟩

/-! ### Files under a name -/

/-- A walk past a file that has been put where no directory was does not lead to nothing. -/
theorem Differs.not_misses {parent directory : Path} {name : String} {before : List String}
    {links : Nat} (h : files.Differs (parent ++ [name]) (.file data mode) next)
    (hold : files.entry? (parent ++ [name]) ≠ some .directory) (hname : IsName name)
    (hbefore : files.walk .look links directory before = .ok (.found parent .directory))
    (rest : List String) :
    ¬ Misses (next.walk .look links directory (before ++ name :: rest)) := by
  -- The way to the directory is the old one, unless it goes through the entry that the file has
  -- taken the place of. That was a link, and now the way stops there.
  replace hbefore := Leads.of_walk hbefore
  generalize hplace : Place.found parent .directory = place at hbefore
  induction hbefore with
  | nil =>
    obtain ⟨rfl, -⟩ := Place.found.inj hplace
    rw [List.nil_append, walk_name _ _ _ hname, h.here]
    split
    · simp [Misses]
    · dsimp only
      split <;> simp [Misses]
  | skip hskip _ ih =>
    rw [List.cons_append, walk_skip _ _ _ hskip]
    exact ih hplace
  | up _ ih =>
    rw [List.cons_append, walk_up]
    exact ih hplace
  | vacant => cases hplace
  | file => cases hplace
  | @down links directory segment before _ hsegment hsize hentry _ ih =>
    have hother : directory ++ [segment] ≠ parent ++ [name] := by
      intro heq
      exact hold (heq ▸ hentry)
    rw [List.cons_append, walk_name _ _ _ hsegment, if_neg hsize, h.elsewhere _ hother, hentry]
    exact ih hplace
  | @follow links directory segment target before _ hsegment hsize hentry _ ih =>
    rw [List.cons_append, walk_name _ _ _ hsegment, if_neg hsize]
    by_cases hpath : directory ++ [segment] = parent ++ [name]
    · rw [hpath, h.here]
      dsimp only
      rw [if_neg (by simp)]
      simp [Misses]
    · rw [h.elsewhere _ hpath, hentry]
      dsimp only
      rw [← List.append_assoc]
      exact ih hplace

/-- What a written path names: a name, perhaps with slashes after it, in a directory. -/
theorem exists_segments_of_slot {unnamed : Fault} {slot : Slot}
    (h : files.slot written unnamed = .ok slot) :
    ∃ before rest, Path.segments written = before ++ slot.name :: rest ∧ IsName slot.name ∧
      files.enter (files.origin written) before = .ok slot.directory := by
  obtain ⟨-, before, hnames, henter, hdots, -⟩ := slot_eq_ok.mp h
  obtain ⟨hdot, hup⟩ := not_or.mp hdots
  have hempty : slot.name ≠ "" := by
    have hhead := List.head?_dropWhile_not (fun segment : String => segment = "")
      (Path.segments written).reverse
    rw [hnames] at hhead
    simpa using hhead
  have hsegments := List.takeWhile_append_dropWhile (p := fun segment : String => segment = "")
    (l := (Path.segments written).reverse)
  rw [hnames] at hsegments
  generalize (Path.segments written).reverse.takeWhile _ = slashes at hsegments
  refine ⟨before.reverse, slashes.reverse, ?_, ⟨hempty, hdot, hup⟩, henter⟩
  rw [← List.reverse_reverse (Path.segments written), ← hsegments]
  simp

/-- **Where a file has been put under a name, the path is not free**, unless a directory was there
    before. -/
theorem Differs.not_isFree {unnamed : Fault} {slot : Slot}
    (h : files.Differs slot.path (.file data mode) next)
    (hslot : files.slot written unnamed = .ok slot)
    (hold : files.entry? slot.path ≠ some .directory) : ¬ next.IsFree written := by
  obtain ⟨before, rest, hsegments, hname, henter⟩ := exists_segments_of_slot hslot
  rw [isFree_iff_walk, h.origin, hsegments, (slot_eq_ok.mp hslot).1]
  rintro (hcheck | ⟨-, hmisses⟩)
  · cases hcheck
  · exact h.not_misses hold hname (enter_eq_ok.mp henter) rest hmisses

/-- Where a file is under a name, the path is not free. -/
theorem not_isFree_of_file {unnamed : Fault} {slot : Slot}
    (hslot : files.slot written unnamed = .ok slot) (hfile : files.IsFile slot.path) :
    ¬ files.IsFree written := by
  obtain ⟨data, mode, hentry⟩ := hfile
  have hself : files.Differs slot.path (.file data mode) files :=
    ⟨hentry, fun _ _ => rfl, rfl⟩
  exact hself.not_isFree hslot (by rw [hentry]; exact nofun)

/-! ### Names that files are made under -/

/-- A walk to where a file can be made ends with a name in a directory that the other segments
    lead to. -/
theorem exists_name_of_walk {links : Nat} {directory : Path} {segments : List String}
    (h : files.walk .create links directory segments = .ok (.vacant path)) :
    ∃ before name parent, segments = before ++ [name] ∧ IsName name ∧ path = parent ++ [name] ∧
      files.walk .look links directory before = .ok (.found parent .directory) := by
  rw [walk_eq_followFor] at h
  induction links, directory, segments using walk_induction with
  | nil => cases h
  | @skip _ _ segment _ hskip ih =>
    rw [walkWith, if_pos hskip] at h
    obtain ⟨before, name, parent, rfl, hname, hpath, hbefore⟩ := ih h
    exact ⟨segment :: before, name, parent, rfl, hname, hpath,
      by rw [walk_skip _ _ _ hskip, hbefore]⟩
  | up ih =>
    rw [walkWith, if_neg (by decide), if_pos rfl] at h
    obtain ⟨before, name, parent, rfl, hname, hpath, hbefore⟩ := ih h
    exact ⟨".." :: before, name, parent, rfl, hname, hpath, by rw [walk_up, hbefore]⟩
  | @name links directory segment rest hname down follow =>
    rw [walkWith, if_neg (not_or.mpr ⟨hname.1, hname.2.1⟩), if_neg hname.2.2] at h
    split at h
    · cases h
    · split at h
      · cases h
      · rename_i hsize
        dsimp only at h
        cases hentry : files.entry? (directory ++ [segment]) with
        | none =>
          rw [hentry] at h
          dsimp only at h
          split at h
          · rename_i hrest
            obtain rfl := hrest
            obtain rfl := Place.vacant.inj (Except.ok.inj h)
            exact ⟨[], segment, directory, rfl, hname, rfl, walk_nil _ _ _⟩
          · cases h
        | some entry =>
          rw [hentry] at h
          cases entry with
          | directory =>
            obtain ⟨before, name, parent, rfl, hlast, hpath, hbefore⟩ := down h
            refine ⟨segment :: before, name, parent, rfl, hlast, hpath, ?_⟩
            rw [walk_name _ _ _ hname, if_neg hsize, hentry]
            exact hbefore
          | file content permissions =>
            dsimp only at h
            split at h <;> cases h
          | link target =>
            dsimp only at h
            split at h
            · cases h
            · rename_i hrest
              cases links with
              | zero => cases h
              | succ links =>
                -- The segments of the target come before the last one, which is the name.
                obtain ⟨before, name, parent, hsegments, hlast, hpath, hbefore⟩ :=
                  follow links rfl _ _ (by rwa [← walk_eq_followFor])
                rcases List.eq_nil_or_concat rest with rfl | ⟨rest, last, rfl⟩
                · exact absurd ⟨rfl, rfl⟩ hrest
                · rw [List.concat_eq_append, ← List.append_assoc] at hsegments
                  obtain ⟨rfl, hsame⟩ := List.append_inj' hsegments rfl
                  obtain rfl := (List.cons.inj hsame).1
                  refine ⟨segment :: rest, last, parent, by simp, hlast, hpath, ?_⟩
                  rw [walk_name _ _ _ hname, if_neg hsize, hentry]
                  exact hbefore

/-- **A file is made under the name that the written path gives it.** -/
theorem slot_of_vacant (h : files.find .create written = .ok (.vacant path)) (unnamed : Fault) :
    ∃ slot, files.slot written unnamed = .ok slot ∧ slot.path = path := by
  obtain ⟨_, hcheck, hwalk⟩ := bind_eq_ok.mp h
  obtain ⟨before, name, parent, hsegments, hname, rfl, hbefore⟩ := exists_name_of_walk hwalk
  refine ⟨⟨parent, name, decide ((Path.segments written).getLast? = some "")⟩,
    slot_eq_ok.mpr ⟨hcheck, before.reverse, ?_, ?_, not_or.mpr hname.2, rfl⟩, rfl⟩
  · rw [hsegments, List.reverse_append, List.reverse_singleton, List.singleton_append]
    exact List.dropWhile_cons_of_neg (by simpa using hname.1)
  · rw [List.reverse_reverse]
    exact enter_eq_ok.mpr hbefore

/-- A file is made only where a free path leads. -/
theorem isFree_of_vacant (h : files.find .create written = .ok (.vacant path)) :
    files.IsFree written := isFree_iff.mpr (.inl ⟨path, (look_of_vacant h).1⟩)

/-! ### What is under a name -/

/-- Is this what is under a written path: an entry of that name, which is not followed if it is a
    link, or what the path leads to? -/
def IsTakenBy (files : Files) (written : String) (entry : Entry) : Prop :=
  (∃ slot, files.slot written .resourceBusy = .ok slot ∧ files.entry? slot.path = some entry) ∨
    ∃ path, files.find .look written = .ok (.found path entry)

variable {entry : Entry}

/-- What a written path leads to, it does not miss. -/
theorem not_isFree_of_found (h : files.find .look written = .ok (.found path entry)) :
    ¬ files.IsFree written := by
  rw [isFree_iff, h]
  simp [Misses]

/-- **No file can be made under a name that is taken**, be it by a link that leads nowhere. -/
theorem IsTakenBy.not_vacant (h : files.IsTakenBy written entry) (path : Path) :
    files.find .create written ≠ .ok (.vacant path) := by
  intro hvacant
  rcases h with ⟨slot, hslot, hentry⟩ | ⟨found, hfound⟩
  · obtain ⟨same, hsame, rfl⟩ := slot_of_vacant hvacant .resourceBusy
    obtain rfl := Except.ok.inj (hslot.symm.trans hsame)
    rw [(look_of_vacant hvacant).2.2] at hentry
    cases hentry
  · exact not_isFree_of_found hfound (isFree_of_vacant hvacant)

/-- A name that is taken though the path is free is that of a link, unless it is that of a
    directory. -/
theorem IsTakenBy.link_of_isFree (h : files.IsTakenBy written entry) (hfree : files.IsFree written)
    {slot : Slot} (hslot : files.slot written .resourceBusy = .ok slot)
    (hold : files.entry? slot.path ≠ some .directory) :
    ∃ target, entry = .link target ∧ files.entry? slot.path = some (.link target) := by
  rcases h with ⟨same, hsame, hentry⟩ | ⟨found, hfound⟩
  · obtain rfl := Except.ok.inj (hslot.symm.trans hsame)
    cases entry with
    | directory => exact absurd hentry hold
    | file data mode => exact absurd hfree (not_isFree_of_file hslot ⟨data, mode, hentry⟩)
    | link target => exact ⟨target, rfl, hentry⟩
  · exact absurd hfree (not_isFree_of_found hfound)

end Lockbox.Files
