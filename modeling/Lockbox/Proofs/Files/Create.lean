import Lockbox.Proofs.Files.Plain

namespace Lockbox.Files

/-!
# Files that are made

A file is made where a written path leads to nothing, and from then on the path leads to the file,
whatever links there are on the way.

* `followFor`, `walk_of_walk` — a walk for any purpose, seen as one that only looks.
* `look_of_vacant` — what is where a file can be made.
* `read_of_create` — what is read where a file has been made.
-/

variable {files : Files}

/-! ### Walks for a purpose -/

/-- Where a link leads that is met with so many links left on a walk for a purpose. -/
def followFor (files : Files) (purpose : Purpose) :
    (links : Nat) → (directory : Path) → List String → Except Fault Place
  | 0, _, _ => .error .linkLoop
  | links + 1, directory, segments => files.walk purpose links directory segments

theorem walk_eq_followFor (files : Files) (purpose : Purpose) (links : Nat) :
    files.walk purpose links = files.walkWith purpose (files.followFor purpose links) := by
  cases links <;> rfl

/-- A walk that gets somewhere gets there too if it only looks, unless what it ends at is a link. -/
theorem walk_of_walk {purpose : Purpose} {links : Nat} {directory : Path} {segments : List String}
    {place : Place} (h : files.walk purpose links directory segments = .ok place)
    (hplace : ∀ path target, place ≠ .found path (.link target)) :
    files.walk .look links directory segments = .ok place := by
  rw [walk_eq_followFor] at h
  induction links, directory, segments using walk_induction with
  | nil =>
    rw [walkWith] at h
    rw [walk_nil]
    exact h
  | skip hskip ih =>
    rw [walkWith, if_pos hskip] at h
    rw [walk_skip _ _ _ hskip]
    exact ih h
  | up ih =>
    rw [walkWith, if_neg (by decide), if_pos rfl] at h
    rw [walk_up]
    exact ih h
  | @name links directory segment rest hname down follow =>
    rw [walkWith, if_neg (not_or.mpr ⟨hname.1, hname.2.1⟩), if_neg hname.2.2] at h
    rw [walk_name _ _ _ hname]
    split at h
    · cases h
    · split at h
      · cases h
      · rename_i hsize
        rw [if_neg hsize]
        dsimp only at h
        cases hentry : files.entry? (directory ++ [segment]) with
        | none =>
          rw [hentry] at h
          exact h
        | some entry =>
          rw [hentry] at h
          cases entry with
          | directory => exact down h
          | file data mode => exact h
          | link target =>
            dsimp only at h
            split at h
            · exact absurd (Except.ok.inj h).symm (hplace _ _)
            · cases links with
              | zero => cases h
              | succ links =>
                refine follow links rfl _ _ ?_
                rwa [← walk_eq_followFor]

/-- Where a walk ends at nothing, nothing is there, and it is not the root. -/
theorem Leads.vacant_entry {links : Nat} {directory path : Path} {segments : List String}
    (h : Leads files links directory segments (.vacant path)) :
    path ≠ [] ∧ files.entry? path = none := by
  generalize hplace : Place.vacant path = place at h
  induction h with
  | nil => cases hplace
  | skip _ _ ih => exact ih hplace
  | up _ ih => exact ih hplace
  | vacant _ _ hentry =>
    obtain rfl := Place.vacant.inj hplace
    exact ⟨by simp, hentry⟩
  | file => cases hplace
  | down _ _ _ _ ih => exact ih hplace
  | follow _ _ _ _ ih => exact ih hplace

/-! ### Making a file -/

variable {next : Files} {written : String} {data : Bytes}

/-- A file is made where a written path leads to nothing. -/
theorem create_eq_ok : files.create written data = .ok next ↔
    ∃ path, files.find .create written = .ok (.vacant path) ∧
      next = files.insert path (.file data 0o644) := by
  unfold create
  rw [bind_eq_ok]
  constructor
  · rintro ⟨place, hfind, hplace⟩
    cases place with
    | found path entry => cases hplace
    | vacant path => exact ⟨path, hfind, (Except.ok.inj hplace).symm⟩
  · rintro ⟨path, hfind, rfl⟩
    exact ⟨_, hfind, rfl⟩

/-- Where a file can be made, the written path leads to nothing, and nothing is there. -/
theorem look_of_vacant {path : Path} (h : files.find .create written = .ok (.vacant path)) :
    files.find .look written = .ok (.vacant path) ∧ path ≠ [] ∧ files.entry? path = none := by
  obtain ⟨_, hcheck, hcreate⟩ := bind_eq_ok.mp h
  have hwalk := walk_of_walk hcreate fun _ _ => nofun
  exact ⟨find_eq_ok.mpr ⟨hcheck, hwalk⟩, (Leads.of_walk hwalk).vacant_entry⟩

/-- **What has been put into a file that is made is read there.** -/
theorem read_of_create (h : files.create written data = .ok next) :
    next.read written = .ok data := by
  obtain ⟨path, hfind, rfl⟩ := create_eq_ok.mp h
  obtain ⟨hlook, hne, hentry⟩ := look_of_vacant hfind
  obtain ⟨hcheck, hwalk⟩ := find_eq_ok.mp hlook
  -- The walk that found nothing now finds the file.
  have hafter := walk_insert_file ⟨hne, .inl hentry⟩ data 0o644 hwalk
  have hput : (Place.vacant path).put path (.file data 0o644) =
      .found path (.file data 0o644) := if_pos rfl
  rw [hput] at hafter
  exact read_eq_ok.mpr ⟨path, 0o644, find_eq_ok.mpr ⟨hcheck, hafter⟩⟩

end Lockbox.Files
