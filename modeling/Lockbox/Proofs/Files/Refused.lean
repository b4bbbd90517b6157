import Lockbox.Proofs.Files.Replace

namespace Lockbox.Files

/-!
# Files on a disk that refuses

Whatever a disk refuses when a file is replaced, and whenever it does, what was to be replaced is
what it was.  All that can be left of the attempt is the temporary file, if the disk does not let
that be taken away again either.

* `Strands`, `KeptBut` — a temporary file that stays, and files with nothing else new among them.
* `deliver_cases` — what comes of a temporary file that has been made.
* `writePrivate_eq_error` — what is left where a file cannot be replaced.
-/

variable {files next : Files} {written : String} {data : Bytes} {path : Path} {fault : Fault}

/-- Does a temporary file stay that was made at a path, to replace what a written path names, because
    the disk does not let it be taken away again? -/
structure Strands (disk : Disk) (files : Files) (written : String) (path : Path) (part : Bytes) :
    Prop where
  /-- It is in the directory of what should have been replaced. -/
  beside : files.temporaryPath written = .ok path
  /-- Nothing else is there. -/
  vacant : files.entry? path = none
  /-- The disk refuses to remove it. -/
  stays : disk.removing (files.insert path (.file part 0o600)) path ≠ none

/-- Is everything what it was, but for a temporary file that stays? -/
def KeptBut (disk : Disk) (files : Files) (written : String) (next : Files) : Prop :=
  next = files ∨ ∃ path part, Strands disk files written path part ∧
    next = files.insert path (.file part 0o600)

/-- A temporary file is moved, or it stays where it is with a part of what should be in it. -/
theorem deliver_cases (disk : Disk) (files : Files) (h : path ≠ []) (written : String)
    (data : Bytes) :
    (∃ fault part, part <+: data ∧
        (deliver path written data disk).run (files.insert path (.file [] 0o600)) =
          (.error fault, files.insert path (.file part 0o600))) ∨
      ∃ next, (deliver path written data disk).run (files.insert path (.file [] 0o600)) =
        (.ok (), next) := by
  have hfill := disk.run_fill h data [] 0o600 files
  unfold deliver
  cases hfilling : disk.filling (files.insert path (.file [] 0o600)) path data with
  | some refusal =>
    rw [hfilling] at hfill
    exact .inl ⟨refusal.2, data.take refusal.1, List.take_prefix _ _, run_bind_of_error hfill⟩
  | none =>
    rw [hfilling] at hfill
    rw [run_bind_of_ok hfill, List.nil_append]
    -- Everything is in the file now, and nothing that is left to do changes it before it is moved.
    have hsettle := disk.run_settle path (files.insert path (.file data 0o600))
    cases hsettling : disk.settling (files.insert path (.file data 0o600)) path with
    | some fault =>
      rw [hsettling] at hsettle
      exact .inl ⟨fault, data, List.prefix_refl data, run_bind_of_error hsettle⟩
    | none =>
      rw [hsettling] at hsettle
      rw [run_bind_of_ok hsettle, run_bind_of_ok (run_get _)]
      cases disk.moving (files.insert path (.file data 0o600)) path written with
      | some fault =>
        exact .inl ⟨fault, data, List.prefix_refl data, run_bind_of_error (Disk.run_allow _ _)⟩
      | none =>
        rw [run_bind_of_ok (Disk.run_allow _ _), run_bind_of_ok (run_get _), run_bind,
          run_liftM_except]
        cases (files.insert path (.file data 0o600)).move path written with
        | error fault => exact .inl ⟨fault, data, List.prefix_refl data, rfl⟩
        | ok next => exact .inr ⟨next, rfl⟩

/-- **Where a file cannot be replaced, everything is what it was**, but for a temporary file that the
    disk does not let be taken away again. -/
theorem writePrivate_eq_error {disk : Disk}
    (h : (writePrivate written data disk).run files = (.error fault, next)) :
    next = files ∨ ∃ path part, Strands disk files written path part ∧ part <+: data ∧
      next = files.insert path (.file part 0o600) := by
  cases htemporary : files.temporaryPath written with
  | error reason =>
    rw [run_writePrivate_of_error data htemporary disk] at h
    exact .inl (Prod.mk.inj h).2.symm
  | ok path =>
    obtain ⟨name, parent, hname, -, -, rfl⟩ := temporaryPath_eq_ok.mp htemporary
    have hvacant := entry?_eq_none_of_notMem parent (notMem_of_freshName? hname).1
    have hpath : parent ++ [name] ≠ [] := by simp
    rw [run_writePrivate_on disk data htemporary] at h
    cases hmaking : disk.making files (parent ++ [name]) with
    | some reason =>
      rw [hmaking] at h
      exact .inl (Prod.mk.inj h).2.symm
    | none =>
      rw [hmaking] at h
      dsimp only at h
      obtain ⟨reason, part, hpart, hrun⟩ | ⟨moved, hrun⟩ :=
        deliver_cases disk files hpath written data
      · rw [hrun] at h
        have hnext := (Prod.mk.inj h).2.symm
        split at hnext
        · rw [erase_insert hpath hvacant] at hnext
          exact .inl hnext
        · rename_i hstays
          have hrefused := mt Option.isNone_iff_eq_none.mpr hstays
          exact .inr ⟨_, part, ⟨htemporary, hvacant, hrefused⟩, hpart, hnext⟩
      · rw [hrun] at h
        cases (Prod.mk.inj h).1

end Lockbox.Files
