import Lockbox.Files.Operations
import Lockbox.Proofs.Steps

namespace Lockbox.Files

/-!
# Walks

A walk that is there to look around reads directories and links on its way and one more entry where
it ends.  So nothing else matters to it: not a file that is put somewhere else, and not what stands
under a name that nobody speaks of.

* `walk_nil`, `walk_skip`, `walk_up`, `walk_name` — one segment of a walk.
* `walk_induction` — induction on walks.
* `Leads` — the walks that get somewhere.
* `walk_append` — a walk that goes on from a directory.
* `Place.put`, `walk_insert_file` — a walk that has got somewhere, with a file put anywhere.
* `mem_names`, `mem_names_insert` — the names that are spoken of.
* `walk_insert_fresh` — any walk, with an entry under a name that nobody speaks of.
-/

/-! ### Entries -/

theorem entry?_insert_self {files : Files} {path : Path} {entry : Entry} (h : path ≠ []) :
    Files.entry? (files.insert path entry) path = some entry := by
  unfold Files.entry?
  rw [if_neg h]
  exact Std.ExtTreeMap.getElem?_insert_self

theorem entry?_insert_of_ne {files : Files} {path other : Path} {entry : Entry} (h : other ≠ path) :
    Files.entry? (files.insert path entry) other = files.entry? other := by
  unfold entry?
  split
  · rfl
  -- The tree compares paths; they compare as equal only if they are.
  · have hcompare : ¬ compare path other = .eq :=
      fun heq => h (Std.LawfulEqCmp.eq_of_compare heq).symm
    show (files.entries.insert path entry)[other]? = _
    rw [Std.ExtTreeMap.getElem?_insert, if_neg hcompare]

/-- Taking away again what was put where nothing was. -/
theorem erase_insert {files : Files} {path : Path} (hne : path ≠ []) (h : files.entry? path = none)
    (entry : Entry) : (files.insert path entry).erase path = files := by
  unfold Files.entry? at h
  rw [if_neg hne] at h
  have hentries : (files.entries.insert path entry).erase path = files.entries := by
    apply Std.ExtTreeMap.ext_getElem?
    intro place
    rw [Std.ExtTreeMap.getElem?_erase, Std.ExtTreeMap.getElem?_insert]
    by_cases hcompare : compare path place = .eq
    · obtain rfl := Std.LawfulEqCmp.eq_of_compare hcompare
      rw [if_pos hcompare, h]
    · rw [if_neg hcompare, if_neg hcompare]
  unfold insert erase
  rw [hentries]

/-- Of two entries that are put at a path, the second one stays. -/
theorem insert_insert_self (files : Files) (path : Path) (first second : Entry) :
    (files.insert path first).insert path second = files.insert path second := by
  have hentries : (files.entries.insert path first).insert path second =
      files.entries.insert path second := by
    refine Std.ExtTreeMap.ext_getElem? fun other => ?_
    simp only [Std.ExtTreeMap.getElem?_insert]
    split <;> rfl
  unfold insert
  rw [hentries]

/-- Adding to a file that has just been put. -/
theorem extend_insert {files : Files} {path : Path} (h : path ≠ []) (old data : Bytes)
    (mode : Nat) : (files.insert path (.file old mode)).extend path data =
      files.insert path (.file (old ++ data) mode) := by
  unfold extend
  rw [entry?_insert_self h]
  exact insert_insert_self files path _ _

/-! ### One segment -/

/-- A segment that is a name, and neither nothing nor dots. -/
def IsName (segment : String) : Prop := segment ≠ "" ∧ segment ≠ "." ∧ segment ≠ ".."

/-- Where a link leads that is met with so many links left. -/
def follow (files : Files) : (links : Nat) → (directory : Path) → List String → Except Fault Place
  | 0, _, _ => .error .linkLoop
  | links + 1, directory, segments => files.walk .look links directory segments

theorem walk_eq_walkWith (files : Files) (links : Nat) :
    files.walk .look links = files.walkWith .look (files.follow links) := by
  cases links <;> rfl

section

variable (files : Files) (links : Nat) (directory : Path)

theorem walk_nil : files.walk .look links directory [] = .ok (.found directory .directory) := by
  rw [walk_eq_walkWith, walkWith]

theorem walk_skip {segment : String} (h : segment = "" ∨ segment = ".") (rest : List String) :
    files.walk .look links directory (segment :: rest) = files.walk .look links directory rest := by
  rw [walk_eq_walkWith, walkWith, if_pos h]

theorem walk_up (rest : List String) :
    files.walk .look links directory (".." :: rest) =
      files.walk .look links directory.dropLast rest := by
  rw [walk_eq_walkWith, walkWith, if_neg (by decide), if_pos rfl]

theorem walk_name {segment : String} (h : IsName segment) (rest : List String) :
    files.walk .look links directory (segment :: rest) =
      if segment.utf8ByteSize > maxNameSize then .error .invalidFilename
      else match files.entry? (directory ++ [segment]) with
        | none => if rest = [] then .ok (.vacant (directory ++ [segment])) else .error .notFound
        | some .directory => files.walk .look links (directory ++ [segment]) rest
        | some (.file data mode) =>
          if rest = [] then .ok (.found (directory ++ [segment]) (.file data mode))
          else .error .notADirectory
        | some (.link target) =>
          files.follow links (if Path.startsAtRoot target then [] else directory)
            (Path.segments target ++ rest) := by
  obtain ⟨hempty, hdot, hdots⟩ := h
  rw [walk_eq_walkWith, walkWith, if_neg (by simp [hempty, hdot]), if_neg hdots,
    if_neg (by simp [Purpose.makesFile])]
  split
  · rfl
  · dsimp only
    cases hentry : files.entry? (directory ++ [segment]) with
    | none => rfl
    | some entry =>
      cases entry with
      | directory => rfl
      | file data mode => rfl
      | link target =>
        dsimp only
        rw [if_neg (by simp)]

end

/-- A segment is skipped, goes up or is a name. -/
theorem segment_cases (segment : String) :
    (segment = "" ∨ segment = ".") ∨ segment = ".." ∨ IsName segment := by
  by_cases hskip : segment = "" ∨ segment = "."
  · exact .inl hskip
  · by_cases hup : segment = ".."
    · exact .inr (.inl hup)
    · obtain ⟨hempty, hdot⟩ := not_or.mp hskip
      exact .inr (.inr ⟨hempty, hdot, hup⟩)

/-- Induction on walks: on the segments, and at a link on all walks with one link less.  Only a link
    makes the segments more, and it uses one up. -/
@[elab_as_elim]
theorem walk_induction {motive : (links : Nat) → (directory : Path) → List String → Prop}
    (nil : ∀ {links : Nat} {directory : Path}, motive links directory [])
    (skip : ∀ {links : Nat} {directory : Path} {segment : String} {rest : List String},
      segment = "" ∨ segment = "." → motive links directory rest →
        motive links directory (segment :: rest))
    (up : ∀ {links : Nat} {directory : Path} {rest : List String},
      motive links directory.dropLast rest → motive links directory (".." :: rest))
    (name : ∀ {links : Nat} {directory : Path} {segment : String} {rest : List String},
      IsName segment → motive links (directory ++ [segment]) rest →
        (∀ fewer, links = fewer + 1 → ∀ directory segments, motive fewer directory segments) →
        motive links directory (segment :: rest))
    (links : Nat) (directory : Path) (segments : List String) :
    motive links directory segments := by
  induction links using Nat.strongRecOn generalizing directory segments with
  | _ links ih =>
    induction segments generalizing directory with
    | nil => exact nil
    | cons segment rest ihs =>
      rcases segment_cases segment with hskip | rfl | hname
      · exact skip hskip (ihs directory)
      · exact up (ihs directory.dropLast)
      · refine name hname (ihs (directory ++ [segment])) fun fewer hfewer => ih fewer ?_
        exact hfewer ▸ Nat.lt_succ_self fewer

/-! ### Ways -/

/-- A walk that gets to a place, segment by segment. -/
inductive Leads (files : Files) : (links : Nat) → (directory : Path) → List String → Place → Prop
  | nil {links : Nat} {directory : Path} :
      Leads files links directory [] (.found directory .directory)
  | skip {links : Nat} {directory : Path} {segment : String} {rest : List String} {place : Place}
      (hskip : segment = "" ∨ segment = ".") (h : Leads files links directory rest place) :
      Leads files links directory (segment :: rest) place
  | up {links : Nat} {directory : Path} {rest : List String} {place : Place}
      (h : Leads files links directory.dropLast rest place) :
      Leads files links directory (".." :: rest) place
  | vacant {links : Nat} {directory : Path} {segment : String} (hname : IsName segment)
      (hsize : ¬ segment.utf8ByteSize > maxNameSize)
      (hentry : files.entry? (directory ++ [segment]) = none) :
      Leads files links directory [segment] (.vacant (directory ++ [segment]))
  | file {links : Nat} {directory : Path} {segment : String} {data : Bytes} {mode : Nat}
      (hname : IsName segment) (hsize : ¬ segment.utf8ByteSize > maxNameSize)
      (hentry : files.entry? (directory ++ [segment]) = some (.file data mode)) :
      Leads files links directory [segment] (.found (directory ++ [segment]) (.file data mode))
  | down {links : Nat} {directory : Path} {segment : String} {rest : List String} {place : Place}
      (hname : IsName segment) (hsize : ¬ segment.utf8ByteSize > maxNameSize)
      (hentry : files.entry? (directory ++ [segment]) = some .directory)
      (h : Leads files links (directory ++ [segment]) rest place) :
      Leads files links directory (segment :: rest) place
  | follow {links : Nat} {directory : Path} {segment target : String} {rest : List String}
      {place : Place} (hname : IsName segment) (hsize : ¬ segment.utf8ByteSize > maxNameSize)
      (hentry : files.entry? (directory ++ [segment]) = some (.link target))
      (h : Leads files links (if Path.startsAtRoot target then [] else directory)
        (Path.segments target ++ rest) place) :
      Leads files (links + 1) directory (segment :: rest) place

/-- A walk that gets somewhere is a way there. -/
theorem Leads.of_walk {files : Files} {links : Nat} {directory : Path} {segments : List String}
    {place : Place} (h : files.walk .look links directory segments = .ok place) :
    Leads files links directory segments place := by
  induction links, directory, segments using walk_induction with
  | nil =>
    rw [walk_nil, Except.ok.injEq] at h
    rw [← h]
    exact .nil
  | skip hskip ih =>
    rw [walk_skip _ _ _ hskip] at h
    exact .skip hskip (ih h)
  | up ih =>
    rw [walk_up] at h
    exact .up (ih h)
  | @name links directory segment rest hname down follow =>
    rw [walk_name _ _ _ hname] at h
    split at h
    · cases h
    · rename_i hsize
      split at h
      · rename_i hentry
        split at h
        · rename_i hrest
          obtain rfl := hrest
          rw [← Except.ok.inj h]
          exact .vacant hname hsize hentry
        · cases h
      · rename_i hentry
        exact .down hname hsize hentry (down h)
      · rename_i data mode hentry
        split at h
        · rename_i hrest
          obtain rfl := hrest
          rw [← Except.ok.inj h]
          exact .file hname hsize hentry
        · cases h
      · rename_i target hentry
        cases links with
        | zero => cases h
        | succ links => exact .follow hname hsize hentry (follow links rfl _ _ h)

/-- A way to a place is a walk that gets there. -/
theorem Leads.walk {files : Files} {links : Nat} {directory : Path} {segments : List String}
    {place : Place} (h : Leads files links directory segments place) :
    files.walk .look links directory segments = .ok place := by
  induction h with
  | nil => rw [walk_nil]
  | skip hskip _ ih => rw [walk_skip _ _ _ hskip, ih]
  | up _ ih => rw [walk_up, ih]
  | vacant hname hsize hentry =>
    rw [walk_name _ _ _ hname, if_neg hsize, hentry]
    rfl
  | file hname hsize hentry =>
    rw [walk_name _ _ _ hname, if_neg hsize, hentry]
    rfl
  | down hname hsize hentry _ ih =>
    rw [walk_name _ _ _ hname, if_neg hsize, hentry]
    exact ih
  | follow hname hsize hentry _ ih =>
    rw [walk_name _ _ _ hname, if_neg hsize, hentry]
    exact ih

/-- What a walk finds at its end is there. -/
theorem Leads.entry {files : Files} {links : Nat} {directory path : Path} {segments : List String}
    {data : Bytes} {mode : Nat}
    (h : Leads files links directory segments (.found path (.file data mode))) :
    files.entry? path = some (.file data mode) := by
  generalize hplace : Place.found path (.file data mode) = place at h
  induction h with
  | nil => cases hplace
  | skip _ _ ih => exact ih hplace
  | up _ ih => exact ih hplace
  | vacant => cases hplace
  | file _ _ hentry =>
    obtain ⟨rfl, hfile⟩ := Place.found.inj hplace
    rw [hfile]
    exact hentry
  | down _ _ _ _ ih => exact ih hplace
  | follow _ _ _ _ ih => exact ih hplace

/-- A walk that gets to a directory goes on from there as a walk of its own would, with as many
    links as are left. -/
theorem walk_append {files : Files} {links : Nat} {directory path : Path} {segments : List String}
    (h : files.walk .look links directory segments = .ok (.found path .directory)) :
    ∃ left, ∀ rest, files.walk .look links directory (segments ++ rest) =
      files.walk .look left path rest := by
  -- The walk on is the one from where this way ends, so what the way leaves of the links is left.
  replace h := Leads.of_walk h
  generalize hplace : Place.found path .directory = place at h
  induction h with
  | @nil links directory =>
    obtain ⟨rfl, -⟩ := Place.found.inj hplace
    exact ⟨links, fun rest => rfl⟩
  | skip hskip _ ih =>
    obtain ⟨left, hleft⟩ := ih hplace
    refine ⟨left, fun rest => ?_⟩
    rw [List.cons_append, walk_skip _ _ _ hskip, hleft rest]
  | up _ ih =>
    obtain ⟨left, hleft⟩ := ih hplace
    refine ⟨left, fun rest => ?_⟩
    rw [List.cons_append, walk_up, hleft rest]
  | vacant => cases hplace
  | file => cases hplace
  | down hname hsize hentry _ ih =>
    obtain ⟨left, hleft⟩ := ih hplace
    refine ⟨left, fun rest => ?_⟩
    rw [List.cons_append, walk_name _ _ _ hname, if_neg hsize, hentry]
    exact hleft rest
  | follow hname hsize hentry _ ih =>
    obtain ⟨left, hleft⟩ := ih hplace
    refine ⟨left, fun rest => ?_⟩
    rw [List.cons_append, walk_name _ _ _ hname, if_neg hsize, hentry]
    -- The segments of the target come before those that are left.
    rw [← hleft rest, List.append_assoc]
    rfl

/-! ### Files put somewhere -/

/-- Is there nothing at a path, or a file? -/
def IsReplaceable (files : Files) (path : Path) : Prop :=
  path ≠ [] ∧ (files.entry? path = none ∨ ∃ data mode, files.entry? path = some (.file data mode))

/-- A directory or link is where no file is put. -/
theorem IsReplaceable.ne {files : Files} {path other : Path} {entry : Entry}
    (h : files.IsReplaceable path) (hentry : files.entry? other = some entry)
    (hnofile : ∀ data mode, entry ≠ .file data mode) : other ≠ path := by
  rintro rfl
  rcases h.2 with hnone | ⟨data, mode, hfile⟩
  · rw [hnone] at hentry
    cases hentry
  · rw [hfile, Option.some.injEq] at hentry
    exact hnofile data mode hentry.symm

namespace Place

/-- The path where a walk ends. -/
def path : Place → Path
  | .found path _ => path
  | .vacant path => path

/-- Where a walk ends once an entry has been put at a path: at the entry, if it would have ended at
    that path with a file or with nothing. -/
def put (path : Path) (entry : Entry) : Place → Place
  | .found directory .directory => .found directory .directory
  | place => if place.path = path then .found path entry else place

end Place

/-- A walk that has got somewhere gets there after a file has been put anywhere. -/
theorem walk_insert_file {files : Files} {path : Path} (hpath : files.IsReplaceable path)
    (data : Bytes) (mode : Nat) {links : Nat} {directory : Path} {segments : List String}
    {place : Place} (h : files.walk .look links directory segments = .ok place) :
    (files.insert path (.file data mode)).walk .look links directory segments =
      .ok (place.put path (.file data mode)) := by
  -- The old way, segment by segment, is the new one. Only its end can be where the file is put:
  -- what a way goes through are directories and links.
  apply Leads.walk
  replace h := Leads.of_walk h
  induction h with
  | nil => exact .nil
  | skip hskip _ ih => exact .skip hskip ih
  | up _ ih => exact .up ih
  | @vacant links directory segment hname hsize hentry =>
    show Leads _ _ _ _ (if directory ++ [segment] = path then _ else _)
    split
    · rename_i heq
      obtain rfl := heq
      exact .file hname hsize (entry?_insert_self hpath.1)
    · rename_i hne
      exact .vacant hname hsize ((entry?_insert_of_ne hne).trans hentry)
  | @file links directory segment content permissions hname hsize hentry =>
    show Leads _ _ _ _ (if directory ++ [segment] = path then _ else _)
    split
    · rename_i heq
      obtain rfl := heq
      exact .file hname hsize (entry?_insert_self hpath.1)
    · rename_i hne
      exact .file hname hsize ((entry?_insert_of_ne hne).trans hentry)
  | down hname hsize hentry _ ih =>
    have hne := hpath.ne hentry (fun _ _ => nofun)
    refine .down hname hsize ?_ ih
    rw [entry?_insert_of_ne hne, hentry]
  | follow hname hsize hentry _ ih =>
    have hne := hpath.ne hentry (fun _ _ => nofun)
    refine .follow hname hsize ?_ ih
    rw [entry?_insert_of_ne hne, hentry]

/-! ### Names that nobody speaks of -/

/-- The names of a tree are those of the paths with an entry, and those that the entries speak
    of. -/
theorem mem_names {files : Files} {name : String} :
    name ∈ files.names ↔ ∃ (path : Path) (entry : Entry), files.entries[path]? = some entry ∧
      (name ∈ path ∨ name ∈ entry.names) := by
  unfold names
  rw [List.mem_flatMap]
  constructor
  · rintro ⟨⟨path, entry⟩, hmem, hname⟩
    exact ⟨path, entry, Std.ExtTreeMap.mem_toList_iff_getElem?_eq_some.mp hmem,
      List.mem_append.mp hname⟩
  · rintro ⟨path, entry, hentry, hname⟩
    exact ⟨(path, entry), Std.ExtTreeMap.mem_toList_iff_getElem?_eq_some.mpr hentry,
      List.mem_append.mpr hname⟩

theorem mem_names_of_entry {files : Files} {path : Path} {entry : Entry} {name : String}
    (hpath : path ≠ []) (h : files.entry? path = some entry)
    (hname : name ∈ path ∨ name ∈ entry.names) : name ∈ files.names := by
  unfold Files.entry? at h
  rw [if_neg hpath] at h
  exact mem_names.mpr ⟨path, entry, h, hname⟩

/-- Nothing has a name that no entry has. -/
theorem entry?_eq_none_of_notMem {files : Files} (parent : Path) {name : String}
    (hname : name ∉ files.names) : files.entry? (parent ++ [name]) = none := by
  cases hentry : files.entry? (parent ++ [name]) with
  | none => rfl
  | some entry => exact absurd (mem_names_of_entry (by simp) hentry (.inl (by simp))) hname

/-- A file that is put somewhere adds the names of its path. -/
theorem mem_names_insert {files : Files} {path : Path} (hpath : files.IsReplaceable path)
    (data : Bytes) (mode : Nat) {name : String} :
    name ∈ (files.insert path (.file data mode)).names ↔ name ∈ path ∨ name ∈ files.names := by
  have hentries : ∀ other : Path, (files.insert path (.file data mode)).entries[other]? =
      if compare path other = .eq then some (.file data mode) else files.entries[other]? :=
    fun other => Std.ExtTreeMap.getElem?_insert
  rw [mem_names, mem_names]
  constructor
  · rintro ⟨other, entry, hentry, hname⟩
    rw [hentries] at hentry
    split at hentry
    · rename_i heq
      obtain rfl := Std.LawfulEqCmp.eq_of_compare heq
      obtain rfl := Option.some.inj hentry
      exact .inl (hname.resolve_right List.not_mem_nil)
    · exact .inr ⟨other, entry, hentry, hname⟩
  · rintro (hname | ⟨other, entry, hentry, hname⟩)
    · refine ⟨path, .file data mode, ?_, .inl hname⟩
      rw [hentries, if_pos Std.ReflCmp.compare_self]
    · by_cases heq : compare path other = .eq
      · -- What was there before was a file as well.
        obtain rfl := Std.LawfulEqCmp.eq_of_compare heq
        refine ⟨path, .file data mode, by rw [hentries, if_pos heq], ?_⟩
        have hfile := hpath.2
        unfold Files.entry? at hfile
        rw [if_neg hpath.1, hentry] at hfile
        rcases hfile with hnone | ⟨content, permissions, hfile⟩
        · cases hnone
        · rw [Option.some.inj hfile] at hname
          exact hname
      · exact ⟨other, entry, by rw [hentries, if_neg heq]; exact hentry, hname⟩

/-- No walk notices an entry under a name that no link speaks of and the walk does not come by. -/
theorem walk_insert_fresh {files : Files} {parent : Path} {name : String} (entry : Entry)
    (hname : name ∉ files.names) (links : Nat) (directory : Path) {segments : List String}
    (h : name ∉ segments) :
    (files.insert (parent ++ [name]) entry).walk .look links directory segments =
      files.walk .look links directory segments := by
  induction links, directory, segments using walk_induction with
  | nil => rw [walk_nil, walk_nil]
  | skip hskip ih =>
    rw [walk_skip _ _ _ hskip, walk_skip _ _ _ hskip]
    exact ih (List.not_mem_of_not_mem_cons h)
  | up ih =>
    rw [walk_up, walk_up]
    exact ih (List.not_mem_of_not_mem_cons h)
  | @name links directory segment rest hproper down follow =>
    obtain ⟨hsegment, hrest⟩ := not_or.mp (fun hmem => h (List.mem_cons.mpr hmem))
    -- The name is no segment of this walk, so it does not come by the entry.
    have hne : directory ++ [segment] ≠ parent ++ [name] := by
      intro heq
      have hlast : [segment] = [name] := List.append_inj_right' heq rfl
      exact hsegment (List.cons.inj hlast).1.symm
    rw [walk_name _ _ _ hproper, walk_name _ _ _ hproper, entry?_insert_of_ne hne]
    split
    · rfl
    · cases hentry : files.entry? (directory ++ [segment]) with
      | none => rfl
      | some found =>
        cases found with
        | directory => exact down hrest
        | file data mode => rfl
        | link target =>
          cases links with
          | zero => rfl
          | succ links =>
            -- A link that is in the tree speaks only of names that are.
            apply follow links rfl
            rw [List.mem_append, not_or]
            refine ⟨fun hmem => hname ?_, hrest⟩
            exact mem_names_of_entry (by simp) hentry (.inr hmem)

end Lockbox.Files
