namespace Lockbox

/-!
# Steps that may fail

Commands, operations on stored files and calls to an agent are steps on a state that may fail, and
keep what they did to the state before they failed.  These lemmas take such a step apart.

* `run_bind` — one step after the other; `run_bind_of_ok`, `run_bind_of_error` — its two cases.
* `run_pure`, `run_liftM_except`, `run_liftM_state`, `run_get`, `run_modify` — outcomes, and steps
  that cannot fail.
* `run_tryCatch`, `run_adapt`, `run_map` — what is made of a failure, and of a result.
* `bind_eq_ok`, `run_bind_eq_ok` — successes that come of two successes.
* `mapError_mapError`, `mapError_bind` — failures that are reported differently.
* `Preserves` — steps that keep a property of states.
* `mapM_state_cons` — a step for each item of a list.
* `mapM_eq_of_invariant` — two ways of doing steps that agree where an invariant holds.
-/

variable {ε ε' σ α β : Type}

/-! ### Outcomes -/

/-- An outcome that comes of two outcomes comes of two successes. -/
theorem bind_eq_ok {x : Except ε α} {k : α → Except ε β} {b : β} :
    x >>= k = .ok b ↔ ∃ a, x = .ok a ∧ k a = .ok b := by
  cases x with
  | error e => simp [bind, Except.bind]
  | ok a => simp [bind, Except.bind]

/-- Nothing comes after a failure. -/
@[simp] theorem error_bind (e : ε) (k : α → Except ε β) : (Except.error e >>= k) = .error e := rfl

/-- What comes after a success. -/
@[simp] theorem ok_bind (a : α) (k : α → Except ε β) : (Except.ok a >>= k) = k a := rfl

@[simp] theorem mapError_ok (f : ε → ε') (a : α) : (Except.ok a).mapError f = .ok a := rfl

@[simp] theorem mapError_error (f : ε → ε') (e : ε) :
    (Except.error e : Except ε α).mapError f = .error (f e) := rfl

/-- A fault that is worded otherwise twice. -/
theorem mapError_mapError {ε'' : Type} (f : ε → ε') (g : ε' → ε'') (x : Except ε α) :
    (x.mapError f).mapError g = x.mapError (g ∘ f) := by
  cases x <;> rfl

/-- The fault of two outcomes that is worded otherwise is the one of either. -/
theorem mapError_bind (f : ε → ε') (x : Except ε α) (k : α → Except ε β) :
    (x >>= k).mapError f = x.mapError f >>= fun a => (k a).mapError f := by
  cases x <;> rfl

/-- An outcome whose fault is worded otherwise is a success if it was one. -/
theorem mapError_eq_ok {f : ε → ε'} {x : Except ε α} {a : α} :
    x.mapError f = .ok a ↔ x = .ok a := by
  cases x with
  | error e => exact ⟨nofun, nofun⟩
  | ok b => rw [mapError_ok, Except.ok.injEq, Except.ok.injEq]

/-! ### Steps on a state -/

/-- One step after the other, unless the first one fails. -/
theorem run_bind (x : ExceptT ε (StateM σ) α) (k : α → ExceptT ε (StateM σ) β) (s : σ) :
    (x >>= k).run s =
      match x.run s with
      | (.ok a, t) => (k a).run t
      | (.error e, t) => (.error e, t) := by
  show ExceptT.bindCont k (x.run s).1 (x.run s).2 = _
  rcases x.run s with ⟨outcome, t⟩
  cases outcome <;> rfl

/-- A step that succeeds, and what comes after it. -/
theorem run_bind_of_ok {x : ExceptT ε (StateM σ) α} {k : α → ExceptT ε (StateM σ) β} {s t : σ}
    {a : α} (h : x.run s = (.ok a, t)) : (x >>= k).run s = (k a).run t := by
  rw [run_bind, h]

/-- Nothing comes after a step that fails. -/
theorem run_bind_of_error {x : ExceptT ε (StateM σ) α} {k : α → ExceptT ε (StateM σ) β} {s t : σ}
    {e : ε} (h : x.run s = (.error e, t)) : (x >>= k).run s = (.error e, t) := by
  rw [run_bind, h]

/-- Two steps that succeed one after the other. -/
theorem run_bind_eq_ok {x : ExceptT ε (StateM σ) α} {k : α → ExceptT ε (StateM σ) β} {s t : σ}
    {b : β} : (x >>= k).run s = (.ok b, t) ↔
      ∃ a u, x.run s = (.ok a, u) ∧ (k a).run u = (.ok b, t) := by
  rw [run_bind]
  rcases x.run s with ⟨outcome, u⟩
  cases outcome with
  | error e => exact ⟨nofun, nofun⟩
  | ok a =>
    constructor
    · intro h
      exact ⟨a, u, rfl, h⟩
    · rintro ⟨_, _, hfirst, h⟩
      obtain ⟨hvalue, rfl⟩ := Prod.mk.inj hfirst
      obtain rfl := Except.ok.inj hvalue
      exact h

/-- A result is a step that leaves the state alone. -/
@[simp] theorem run_pure (a : α) (s : σ) :
    (pure a : ExceptT ε (StateM σ) α).run s = (.ok a, s) := rfl

/-- An outcome is a step that leaves the state alone. -/
@[simp] theorem run_liftM_except (x : Except ε α) (s : σ) :
    (liftM x : ExceptT ε (StateM σ) α).run s = (x, s) := rfl

/-- An outcome that is a success, as a step. -/
theorem run_liftM_except_eq_ok {x : Except ε α} {a : α} {s t : σ} :
    (liftM x : ExceptT ε (StateM σ) α).run s = (.ok a, t) ↔ x = .ok a ∧ s = t := by
  rw [run_liftM_except, Prod.mk.injEq]

/-- A step that cannot fail. -/
@[simp] theorem run_liftM_state (x : StateM σ α) (s : σ) :
    (liftM x : ExceptT ε (StateM σ) α).run s = (.ok (x s).1, (x s).2) := rfl

theorem run_liftM_state_eq_ok {x : StateM σ α} {a : α} {s t : σ} :
    (liftM x : ExceptT ε (StateM σ) α).run s = (.ok a, t) ↔ x s = (a, t) := by
  rw [run_liftM_state, Prod.mk.injEq, Except.ok.injEq, Prod.ext_iff]

/-- Looking at the state. -/
@[simp] theorem run_get (s : σ) : (get : ExceptT ε (StateM σ) σ).run s = (.ok s, s) := rfl

/-- Changing the state. -/
@[simp] theorem run_modify (f : σ → σ) (s : σ) :
    (modify f : ExceptT ε (StateM σ) PUnit).run s = (.ok (), f s) := rfl

/-- A step with another one to go on with where it fails. -/
theorem run_tryCatch (x : ExceptT ε (StateM σ) α) (k : ε → ExceptT ε (StateM σ) α) (s : σ) :
    (tryCatch x k : ExceptT ε (StateM σ) α).run s =
      match x.run s with
      | (.ok a, t) => (.ok a, t)
      | (.error e, t) => (k e).run t := by
  have hrun : (tryCatch x k : ExceptT ε (StateM σ) α).run s =
      (match (x.run s).1 with
        | .ok a => pure (.ok a)
        | .error e => k e : StateM σ (Except ε α)) (x.run s).2 := rfl
  rw [hrun]
  rcases x.run s with ⟨outcome, t⟩
  cases outcome <;> rfl

/-- A step whose result is made into another one. -/
theorem run_map (f : α → β) (x : ExceptT ε (StateM σ) α) (s : σ) :
    (f <$> x).run s = ((x.run s).1.map f, (x.run s).2) := by
  show (_ : Except ε β × σ) = _
  have hrun : (f <$> x).run s =
      (match (x.run s).1 with
        | .ok a => pure (.ok (f a))
        | .error e => pure (.error e) : StateM σ (Except ε β)) (x.run s).2 := rfl
  rw [hrun]
  rcases x.run s with ⟨outcome, t⟩
  cases outcome <;> rfl

/-- A step whose faults are worded otherwise. -/
theorem run_adapt (f : ε → ε') (x : ExceptT ε (StateM σ) α) (s : σ) :
    (x.adapt f).run s = ((x.run s).1.mapError f, (x.run s).2) := rfl

/-- A step whose faults are worded otherwise succeeds if it did. -/
theorem run_adapt_eq_ok {f : ε → ε'} {x : ExceptT ε (StateM σ) α} {a : α} {s t : σ} :
    (x.adapt f).run s = (.ok a, t) ↔ x.run s = (.ok a, t) := by
  rw [run_adapt, Prod.mk.injEq, mapError_eq_ok, Prod.ext_iff]

/-! ### Properties that steps keep -/

/-- Does a step keep a property of states, even if it fails? -/
def Preserves (P : σ → Prop) (x : ExceptT ε (StateM σ) α) : Prop := ∀ s, P s → P (x.run s).2

/-- A step that leaves the state alone keeps everything. -/
theorem preserves_of_unchanged {P : σ → Prop} {x : ExceptT ε (StateM σ) α}
    (h : ∀ s, (x.run s).2 = s) : Preserves P x := by
  intro s hs
  rw [h]
  exact hs

/-- What holds after a step, and is kept by all that can come next, holds after both. -/
theorem run_bind_of_preserves {P : σ → Prop} {x : ExceptT ε (StateM σ) α}
    {k : α → ExceptT ε (StateM σ) β} {s : σ} (hx : P (x.run s).2) (hk : ∀ a, Preserves P (k a)) :
    P ((x >>= k).run s).2 := by
  rcases hrun : x.run s with ⟨outcome, t⟩
  rw [hrun] at hx
  cases outcome with
  | error e =>
    rw [run_bind_of_error hrun]
    exact hx
  | ok a =>
    rw [run_bind_of_ok hrun]
    exact hk a t hx

/-- What two steps keep, they keep one after the other. -/
theorem Preserves.bind {P : σ → Prop} {x : ExceptT ε (StateM σ) α}
    {k : α → ExceptT ε (StateM σ) β} (hx : Preserves P x) (hk : ∀ a, Preserves P (k a)) :
    Preserves P (x >>= k) := fun s hs => run_bind_of_preserves (hx s hs) hk

/-! ### Steps for the items of a list -/

/-- Steps for the items of a list, one after the other. -/
theorem mapM_state_cons {ι : Type} (f : ι → StateM σ β) (i : ι) (l : List ι) (s : σ) :
    (i :: l).mapM f s = ((f i s).1 :: (l.mapM f (f i s).2).1, (l.mapM f (f i s).2).2) := by
  rw [List.mapM_cons]
  rfl

/-- Two ways of doing steps that agree wherever an invariant holds, and keep it, do the same from
    any state where it holds. -/
theorem mapM_eq_of_invariant {ι : Type} {f g : ι → StateM σ β} (inv : σ → Prop)
    (hstep : ∀ i s, inv s → f i s = g i s ∧ inv (g i s).2) (l : List ι) {s : σ} (h : inv s) :
    l.mapM f s = l.mapM g s ∧ inv (l.mapM g s).2 := by
  -- On the items; the state is arbitrary, since the first step changes it.
  induction l generalizing s with
  | nil => exact ⟨rfl, h⟩
  | cons i l ih =>
    obtain ⟨hfirst, hnext⟩ := hstep i s h
    obtain ⟨hrest, hlast⟩ := ih hnext
    rw [mapM_state_cons, mapM_state_cons, hfirst, hrest]
    exact ⟨rfl, hlast⟩

end Lockbox
