import Lockbox.Proofs.Files.Plain

namespace Lockbox.Files

/-!
# Links

Two dots go up from where a link has led, and not from where the link is.  So the text of a written
path still says where the path leads as long as no two dots come after a link that leads away.

* `Ends` — where segments lead, whatever number of links it takes.
* `Ends.unique`, `append`, `split` — there is one such place, and a way to it can be cut anywhere.
* `Path.resolve` — where segments lead without links.
* `IsDetour`, `Straight` — links that lead away, and written paths that do not go up from one.
* `IsInPlace` — working directories that their own paths lead to.
* `Ends.resolve`, `ends_absolute` — a straight path leads where the path leads that it stands for.
-/

variable {files : Files} {directory path : Path} {segments : List String} {place : Place}

/-! ### Ways with any number of links -/

/-- A way with more links left is the same way. -/
theorem Leads.mono {links more : Nat} (h : Leads files links directory segments place)
    (hmore : links ≤ more) : Leads files more directory segments place := by
  induction h generalizing more with
  | nil => exact .nil
  | skip hskip _ ih => exact .skip hskip (ih hmore)
  | up _ ih => exact .up (ih hmore)
  | vacant hname hsize hentry => exact .vacant hname hsize hentry
  | file hname hsize hentry => exact .file hname hsize hentry
  | down hname hsize hentry _ ih => exact .down hname hsize hentry (ih hmore)
  | follow hname hsize hentry _ ih =>
    obtain ⟨left, rfl⟩ : ∃ left, more = left + 1 := ⟨more - 1, by omega⟩
    exact .follow hname hsize hentry (ih (Nat.le_of_succ_le_succ hmore))

/-- Do segments lead from a directory to a place, whatever number of links it takes? -/
def Ends (files : Files) (directory : Path) (segments : List String) (place : Place) : Prop :=
  ∃ links, files.walk .look links directory segments = .ok place

namespace Ends

theorem of_leads {links : Nat} (h : Leads files links directory segments place) :
    files.Ends directory segments place := ⟨links, h.walk⟩

theorem nil (files : Files) (directory : Path) :
    files.Ends directory [] (.found directory .directory) := ⟨0, walk_nil files 0 directory⟩

/-- Segments lead to one place at most. -/
theorem unique {other : Place} (h : files.Ends directory segments place)
    (hother : files.Ends directory segments other) : place = other := by
  obtain ⟨links, hwalk⟩ := h
  obtain ⟨more, hmore⟩ := hother
  have hone := ((Leads.of_walk hwalk).mono (Nat.le_max_left links more)).walk
  have htwo := ((Leads.of_walk hmore).mono (Nat.le_max_right links more)).walk
  exact Except.ok.inj (hone.symm.trans htwo)

/-- A way to a directory and a way on from there are one way. -/
theorem append {rest : List String}
    (h : files.Ends directory segments (.found path .directory))
    (hrest : files.Ends path rest place) : files.Ends directory (segments ++ rest) place := by
  obtain ⟨links, hwalk⟩ := h
  obtain ⟨more, hmore⟩ := hrest
  replace hwalk := Leads.of_walk hwalk
  replace hmore := Leads.of_walk hmore
  -- The way on takes its links with it through each step of the way before.
  generalize hend : Place.found path .directory = last at hwalk
  induction hwalk with
  | nil =>
    obtain ⟨rfl, -⟩ := Place.found.inj hend
    exact .of_leads hmore
  | skip hskip _ ih =>
    obtain ⟨left, hleft⟩ := ih hend
    exact .of_leads (.skip hskip (.of_walk hleft))
  | up _ ih =>
    obtain ⟨left, hleft⟩ := ih hend
    exact .of_leads (.up (.of_walk hleft))
  | vacant => cases hend
  | file => cases hend
  | down hname hsize hentry _ ih =>
    obtain ⟨left, hleft⟩ := ih hend
    exact .of_leads (.down hname hsize hentry (.of_walk hleft))
  | follow hname hsize hentry _ ih =>
    obtain ⟨left, hleft⟩ := ih hend
    rw [List.append_assoc] at hleft
    exact .of_leads (.follow hname hsize hentry (.of_walk hleft))

/-- A way can be cut before any segment: what comes before leads to a directory. -/
theorem split {rest : List String} (hrest : rest ≠ [])
    (h : files.Ends directory (segments ++ rest) place) :
    ∃ middle, files.Ends directory segments (.found middle .directory) ∧
      files.Ends middle rest place := by
  obtain ⟨links, hwalk⟩ := h
  induction links, directory, segments using walk_induction with
  | @nil links directory => exact ⟨directory, .nil files directory, links, hwalk⟩
  | skip hskip ih =>
    rw [List.cons_append, walk_skip _ _ _ hskip] at hwalk
    obtain ⟨middle, ⟨left, hbefore⟩, hafter⟩ := ih hwalk
    exact ⟨middle, ⟨left, by rw [walk_skip _ _ _ hskip, hbefore]⟩, hafter⟩
  | up ih =>
    rw [List.cons_append, walk_up] at hwalk
    obtain ⟨middle, ⟨left, hbefore⟩, hafter⟩ := ih hwalk
    exact ⟨middle, ⟨left, by rw [walk_up, hbefore]⟩, hafter⟩
  | @name links directory segment segments hname down follow =>
    have hmore : segments ++ rest ≠ [] := fun hnil => hrest (List.append_eq_nil_iff.mp hnil).2
    rw [List.cons_append, walk_name _ _ _ hname] at hwalk
    split at hwalk
    · cases hwalk
    · rename_i hsize
      -- With more segments to come, the name is that of a directory or of a link.
      split at hwalk
      · cases hwalk
      · rename_i hentry
        obtain ⟨middle, ⟨left, hbefore⟩, hafter⟩ := down hwalk
        exact ⟨middle, .of_leads (.down hname hsize hentry (.of_walk hbefore)), hafter⟩
      · cases hwalk
      · rename_i target hentry
        cases links with
        | zero => cases hwalk
        | succ links =>
          -- The segments of the target come before those that are left.
          rw [← List.append_assoc] at hwalk
          obtain ⟨middle, ⟨left, hbefore⟩, hafter⟩ := follow links rfl _ _ hwalk
          exact ⟨middle, .of_leads (.follow hname hsize hentry (.of_walk hbefore)), hafter⟩

end Ends

end Lockbox.Files

/-! ### Ways without links -/

namespace Lockbox.Path

/-- Where segments lead from a directory if there are no links. -/
def resolve (directory : Path) (segments : List String) : Path :=
  (segments.foldl step directory.reverse).reverse

variable {directory : Path} {segment : String} {rest : List String}

@[simp] theorem resolve_nil (directory : Path) : directory.resolve [] = directory :=
  List.reverse_reverse directory

theorem resolve_skip (h : segment = "" ∨ segment = ".") :
    directory.resolve (segment :: rest) = directory.resolve rest := by
  rw [resolve, List.foldl_cons, Files.step_skip _ h]
  rfl

theorem resolve_up : directory.resolve (".." :: rest) = Path.resolve directory.dropLast rest := by
  rw [resolve, List.foldl_cons, Files.step_up]
  rfl

theorem resolve_name (h : Files.IsName segment) :
    directory.resolve (segment :: rest) = Path.resolve (directory ++ [segment]) rest := by
  rw [resolve, List.foldl_cons, Files.step_name directory h]
  rfl

end Lockbox.Path

/-! ### Detours -/

namespace Lockbox.Files

variable {files : Files} {directory path : Path} {segments : List String} {place : Place}

/-- Is there a link at a path that leads to a directory with another parent than the link? -/
def IsDetour (files : Files) (path : Path) : Prop :=
  ∃ parent name directory target place, path = parent ++ [name] ∧
    files.Ends [] parent (.found directory .directory) ∧
    files.entry? (directory ++ [name]) = some (.link target) ∧
    files.Ends [] path (.found place .directory) ∧ place.dropLast ≠ directory

/-- Do the two dots in a written path never go up from a detour? -/
def Straight (files : Files) (written : String) : Prop :=
  ∀ before after, Path.segments written = before ++ ".." :: after →
    ¬ files.IsDetour (Path.resolve (files.origin written) before)

/-- A written path that never goes up is straight. -/
theorem straight_of_notMem {written : String} (h : ".." ∉ Path.segments written) :
    files.Straight written := by
  intro before after hsegments
  exact absurd (hsegments ▸ List.mem_append_right before List.mem_cons_self) h

/-- Going up from where a path leads, without a detour, is going up in the path. -/
theorem ends_dropLast (hnames : ∀ name ∈ path, IsName name)
    (h : files.Ends [] path (.found directory .directory)) (hdetour : ¬ files.IsDetour path) :
    files.Ends [] path.dropLast (.found directory.dropLast .directory) := by
  rcases List.eq_nil_or_concat path with rfl | ⟨parent, name, rfl⟩
  · obtain ⟨rfl, -⟩ := Place.found.inj (h.unique (.nil files []))
    exact .nil files []
  · rw [List.concat_eq_append] at *
    rw [List.dropLast_concat]
    obtain ⟨middle, hparent, links, hlast⟩ := h.split (List.cons_ne_nil name [])
    have hname : IsName name := hnames name (List.mem_append_right _ List.mem_cons_self)
    -- What the last name is decides where it leads: to a directory below, or where a link says.
    rw [walk_name files links middle hname] at hlast
    split at hlast
    · cases hlast
    · cases hentry : files.entry? (middle ++ [name]) with
      | none =>
        rw [hentry] at hlast
        cases hlast
      | some entry =>
        rw [hentry] at hlast
        cases entry with
        | directory =>
          dsimp only at hlast
          rw [walk_nil, Except.ok.injEq, Place.found.injEq] at hlast
          rw [← hlast.1, List.dropLast_concat]
          exact hparent
        | file data mode => cases hlast
        | link target =>
          have hback : directory.dropLast = middle := by
            by_contra hne
            exact hdetour ⟨parent, name, middle, target, directory, rfl, hparent, hentry, h, hne⟩
          rw [hback]
          exact hparent

/-- **Segments lead where they lead without links**, as long as two dots never go up from a
    detour. -/
theorem Ends.resolve (hnames : ∀ name ∈ path, IsName name)
    (hpath : files.Ends [] path (.found directory .directory))
    (hstraight : ∀ before after, segments = before ++ ".." :: after →
      ¬ files.IsDetour (Path.resolve path before))
    (h : files.Ends directory segments place) :
    files.Ends [] (Path.resolve path segments) place := by
  -- On the segments; the path grows and shrinks with them, and goes on leading to the directory.
  induction segments generalizing path directory with
  | nil =>
    rw [Path.resolve_nil, h.unique (.nil files directory)]
    exact hpath
  | cons segment rest ih =>
    rcases segment_cases segment with hskip | rfl | hname
    · obtain ⟨links, hwalk⟩ := h
      rw [walk_skip files links directory hskip] at hwalk
      rw [Path.resolve_skip hskip]
      refine ih hnames hpath (fun before after hrest => ?_) ⟨links, hwalk⟩
      rw [← Path.resolve_skip hskip]
      exact hstraight (segment :: before) after (by rw [hrest, List.cons_append])
    · obtain ⟨links, hwalk⟩ := h
      rw [walk_up] at hwalk
      rw [Path.resolve_up]
      have hhere : ¬ files.IsDetour path := by
        have hfirst := hstraight [] rest rfl
        rwa [Path.resolve_nil] at hfirst
      refine ih (fun name hmem => hnames name (List.dropLast_subset path hmem))
        (ends_dropLast hnames hpath hhere) (fun before after hrest => ?_) ⟨links, hwalk⟩
      rw [← Path.resolve_up]
      exact hstraight (".." :: before) after (by rw [hrest, List.cons_append])
    · rw [Path.resolve_name hname]
      by_cases hrest : rest = []
      · obtain rfl := hrest
        rw [Path.resolve_nil]
        exact hpath.append h
      · rw [← List.singleton_append] at h
        obtain ⟨middle, hfirst, hafter⟩ := h.split hrest
        refine ih (fun name hmem => ?_) (hpath.append hfirst) (fun before after hsame => ?_) hafter
        · rcases List.mem_append.mp hmem with hold | hnew
          · exact hnames name hold
          · rw [List.mem_singleton.mp hnew]
            exact hname
        · rw [← Path.resolve_name hname]
          exact hstraight (segment :: before) after (by rw [hsame, List.cons_append])

/-! ### Written paths -/

/-- Is the working directory a directory that its own path leads to? -/
structure IsInPlace (files : Files) : Prop where
  /-- Its path leads to it. -/
  entered : files.Ends [] files.workingDirectory (.found files.workingDirectory .directory)
  /-- Its path is made of names. -/
  named : ∀ name ∈ files.workingDirectory, IsName name ∧ '/' ∉ name.toList

/-- Where nobody has gone anywhere, the working directory is the root. -/
theorem isInPlace_root (h : files.workingDirectory = []) : files.IsInPlace := by
  constructor
  · rw [h]
    exact .nil files []
  · rw [h]
    exact fun _ => nofun

/-- A straight path leads where the path leads that it stands for. -/
theorem ends_absolute {written : String} (hplace : files.IsInPlace)
    (hstraight : files.Straight written) (h : files.find .look written = .ok place) :
    files.Ends [] (Path.absolute files.workingDirectory written) place := by
  show files.Ends [] (Path.resolve (files.origin written) (Path.segments written)) place
  have hwalk : files.Ends (files.origin written) (Path.segments written) place :=
    ⟨maxLinks, (find_eq_ok.mp h).2⟩
  refine Ends.resolve ?_ ?_ hstraight hwalk
  · intro name hmem
    unfold origin at hmem
    split at hmem
    · cases hmem
    · exact (hplace.named name hmem).1
  · unfold origin
    split
    · exact .nil files []
    · exact hplace.entered

end Lockbox.Files
