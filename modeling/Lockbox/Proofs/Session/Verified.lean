import Lockbox.Proofs.Location
import Lockbox.Proofs.Session.Tasks
import Mathlib.Data.List.Induction

namespace Lockbox

/-!
# Only verified passwords are kept

A password that an agent keeps was typed by somebody who remembered it, and at that moment it opened
the container that it was remembered for.  Nothing else puts a password into the cache, and none
comes back once it has been forgotten.

* `Occasion`, `Cache.afterwards` — tasks in any order, each with whatever it finds, and the cache
  that they leave.
* `Occasion.Verifies`, `Occasion.Forgets` — where passwords come from and where they end.
* `Occasion.verifies_or_keeps` — what one task keeps.
* `cached_password_verified` — what any number of tasks come to.
-/

/-! ### Histories -/

/-- A task with everything that it finds but the cache.  The session has the cipher suite and the
    agent of this task; the files may have been changed by others in any way since the last one. -/
structure Occasion where
  /-- How the task encrypts and which agent it asks. -/
  session : Session Cache
  /-- Where credentials are kept. -/
  vault : Vault
  /-- The task. -/
  task : Task
  /-- The files that it finds, and the randomness. -/
  storage : Storage
  /-- The terminal, with what is typed at it. -/
  console : Console
  /-- The output so far. -/
  output : Bytes

namespace Occasion

variable (occasion : Occasion) (cache : Cache)

/-- The world that the task finds. -/
def start : World Cache :=
  { toStorage := occasion.storage
    store := cache
    console := occasion.console
    output := occasion.output }

/-- Carries out the task: how it ends, and the world after it. -/
def run : Except Failure Unit × World Cache :=
  (occasion.task.run occasion.session occasion.vault).run (occasion.start cache)

/-- The name that the password of the container at a location is kept under. -/
def nameOf (location : String) : Except Fault String :=
  Location.fingerprint occasion.storage.files.workingDirectory location

/-- Is this where a password is remembered that has been typed, and that opens the container it is
    remembered for? -/
def Verifies (name password : String) : Prop :=
  ∃ location container, occasion.task = .remember location ∧
    occasion.nameOf location = .ok name ∧
    (occasion.console.ask Question.password).1 = .ok password ∧
    Storage.load occasion.session.codec occasion.storage.files location password =
      .ok container ∧
    (occasion.run cache).1 = .ok ()

/-- Is this where the password of a container is forgotten? -/
def Forgets (name : String) : Prop :=
  ∃ location, occasion.task = .forget location ∧ occasion.nameOf location = .ok name ∧
    (occasion.run cache).1 = .ok ()

end Occasion

/-- The cache of an agent once tasks have been carried out, one after the other. -/
def Cache.afterwards (occasions : List Occasion) (cache : Cache) : Cache :=
  occasions.foldl (fun cache occasion => (occasion.run cache).2.store) cache

theorem Cache.afterwards_concat (occasions : List Occasion) (occasion : Occasion) (cache : Cache) :
    afterwards (occasions ++ [occasion]) cache =
      (occasion.run (afterwards occasions cache)).2.store := by
  rw [afterwards, List.foldl_append]
  rfl

/-! ### One task -/

namespace Occasion

variable {occasion : Occasion} {cache : Cache} {name password : String}

/-- Where a password is remembered, the one that is kept afterwards is the one that was typed, or it
    was there before. -/
theorem verifies_or_keeps_of_remember (hagent : occasion.session.agent.Atomic) {location : String}
    (htask : occasion.task = .remember location)
    (h : (occasion.run cache).2.store[name]? = some password) :
    occasion.Verifies cache name password ∨ cache[name]? = some password := by
  have hremember : occasion.run cache =
      (occasion.session.remember location).run (occasion.start cache) := by
    unfold run
    rw [htask]
    rfl
  rcases occasion.session.remember_cases location (occasion.start cache) with
    ⟨failure, console, hfailed⟩ | ⟨kept, typed, container, console, -, hname, hask, hload, hgive⟩
  · rw [hremember, hfailed] at h
    exact .inr h
  · -- How it ends and what is kept afterwards are what the agent has made of it.
    have hdone : (occasion.run cache).1 = .ok () ↔
        ((occasion.session.agent.set kept typed).run cache).1 = .ok () := by
      rw [hremember, hgive, Session.run_give]
      exact mapError_eq_ok
    have hstore : (occasion.run cache).2.store =
        ((occasion.session.agent.set kept typed).run cache).2 := by
      rw [hremember, hgive, Session.run_give]
      rfl
    rcases hagent.set kept typed cache with hset | ⟨error, hset⟩
    · rw [hstore, hset, Std.ExtTreeMap.getElem?_insert] at h
      -- Under the name of the location there is what was typed; the other names are as before.
      by_cases hsame : compare kept name = .eq
      · obtain rfl := Std.LawfulEqCmp.eq_of_compare hsame
        rw [if_pos hsame] at h
        obtain rfl := Option.some.inj h
        have htyped : (occasion.console.ask Question.password).1 = .ok typed :=
          congrArg Prod.fst hask
        rw [hset] at hdone
        exact .inl ⟨location, container, htask, hname, htyped, hload, hdone.mpr rfl⟩
      · rw [if_neg hsame] at h
        exact .inr h
    · rw [hstore, hset] at h
      exact .inr h

/-- Where a password is forgotten, the ones that are kept afterwards were there before, under other
    names. -/
theorem keeps_of_forget (hagent : occasion.session.agent.Atomic) {location : String}
    (htask : occasion.task = .forget location)
    (h : (occasion.run cache).2.store[name]? = some password) :
    cache[name]? = some password ∧ ¬ occasion.Forgets cache name := by
  have hforget : occasion.run cache =
      (occasion.session.forget location).run (occasion.start cache) := by
    unfold run
    rw [htask]
    rfl
  have hsame : ∀ {other : String}, occasion.Forgets cache other →
      occasion.nameOf location = .ok other ∧ (occasion.run cache).1 = .ok () := by
    rintro other ⟨place, hplace, hname, hdone⟩
    rw [htask, Task.forget.injEq] at hplace
    obtain rfl := hplace
    exact ⟨hname, hdone⟩
  rcases hname : occasion.nameOf location with fault | kept
  · rw [hforget, occasion.session.run_forget_of_error (occasion.start cache) hname] at h
    refine ⟨h, fun hforgets => ?_⟩
    have hother := (hsame hforgets).1
    rw [hname] at hother
    cases hother
  · have hrun := occasion.session.run_forget (occasion.start cache) hname
    have hdone : (occasion.run cache).1 = .ok () ↔
        ((occasion.session.agent.reset kept).run cache).1 = .ok () := by
      rw [hforget, hrun]
      exact mapError_eq_ok
    have hstore : (occasion.run cache).2.store =
        ((occasion.session.agent.reset kept).run cache).2 := by
      rw [hforget, hrun]
      rfl
    rcases hagent.reset kept cache with hreset | ⟨error, hreset⟩
    · rw [hstore, hreset, Std.ExtTreeMap.getElem?_erase] at h
      split at h
      · cases h
      · rename_i hne
        refine ⟨h, fun hforgets => hne ?_⟩
        have hother := (hsame hforgets).1
        rw [hname] at hother
        rw [Except.ok.inj hother]
        exact Std.ReflCmp.compare_self
    · rw [hstore, hreset] at h
      refine ⟨h, fun hforgets => ?_⟩
      have houtcome := hdone.mp (hsame hforgets).2
      rw [hreset] at houtcome
      cases houtcome

/-- **What one task keeps**: a password that is kept after it has been remembered by it, or was kept
    before and has not been forgotten by it. -/
theorem verifies_or_keeps (hagent : occasion.session.agent.Atomic)
    (h : (occasion.run cache).2.store[name]? = some password) :
    occasion.Verifies cache name password ∨
      cache[name]? = some password ∧ ¬ occasion.Forgets cache name := by
  by_cases hasks : occasion.task.AsksAgent
  · cases htask : occasion.task with
    | remember location =>
      refine (verifies_or_keeps_of_remember hagent htask h).imp_right fun hkept => ⟨hkept, ?_⟩
      rintro ⟨place, hplace, -⟩
      rw [htask] at hplace
      cases hplace
    | forget location => exact .inr (keeps_of_forget hagent htask h)
    | _ =>
      rw [htask] at hasks
      exact absurd hasks id
  · have hstore : (occasion.run cache).2.store = cache :=
      Task.preserves_store hagent occasion.vault hasks (occasion.start cache) rfl
    rw [hstore] at h
    refine .inr ⟨h, ?_⟩
    rintro ⟨location, htask, -⟩
    rw [htask] at hasks
    exact hasks trivial

end Occasion

/-! ### Any number of tasks -/

/-- **Only verified passwords are kept.**  Whatever tasks are carried out, in whatever order, with
    whatever suites, answers and files, and with the agent there or not: every password that is in
    the cache was remembered on an earlier occasion, where it had been typed and opened the
    container of that name, and on no later occasion has a password of that name been forgotten. -/
theorem cached_password_verified {occasions : List Occasion}
    (hagents : ∀ occasion ∈ occasions, occasion.session.agent.IsAgent) {name password : String}
    (h : (Cache.afterwards occasions ∅)[name]? = some password) :
    ∃ earlier occasion later, occasions = earlier ++ occasion :: later ∧
      occasion.Verifies (Cache.afterwards earlier ∅) name password ∧
      ∀ between forgetting rest, later = between ++ forgetting :: rest →
        ¬ forgetting.Forgets (Cache.afterwards (earlier ++ occasion :: between) ∅) name := by
  -- On the tasks, from the last one back: it has remembered the password or kept it.
  induction occasions using List.reverseRecOn with
  | nil =>
    rw [show Cache.afterwards [] ∅ = ∅ from rfl, Std.ExtTreeMap.getElem?_empty] at h
    cases h
  | append_singleton occasions last ih =>
    have hlast := hagents last (List.mem_append_right _ (List.mem_singleton_self last))
    rw [Cache.afterwards_concat] at h
    rcases Occasion.verifies_or_keeps hlast.atomic h with hverifies | ⟨hkept, hnot⟩
    · refine ⟨occasions, last, [], rfl, hverifies, ?_⟩
      intro between forgetting rest hnil
      cases between <;> cases hnil
    · obtain ⟨earlier, occasion, later, rfl, hverifies, hnever⟩ :=
        ih (fun o ho => hagents o (List.mem_append_left _ ho)) hkept
      refine ⟨earlier, occasion, later ++ [last], by simp, hverifies, ?_⟩
      intro between forgetting rest hlater
      rcases List.eq_nil_or_concat rest with rfl | ⟨rest, final, rfl⟩
      · obtain ⟨rfl, hforgetting⟩ := List.append_inj' hlater rfl
        rw [← (List.cons.inj hforgetting).1]
        exact hnot
      · apply hnever between forgetting rest
        rw [List.concat_eq_append, ← List.cons_append, ← List.append_assoc] at hlater
        exact (List.append_inj' hlater rfl).1

/-- A password that is remembered for a container, once another one has been forgotten. -/
theorem remembered_is_verified :
    ∃ (forgetting remembering : Occasion) (name : String),
      (Cache.afterwards [forgetting, remembering] ∅)[name]? = some "p" ∧
        ∃ earlier occasion later, [forgetting, remembering] = earlier ++ occasion :: later ∧
          occasion.Verifies (Cache.afterwards earlier ∅) name "p" ∧
          ∀ between last rest, later = between ++ last :: rest →
            ¬ last.Forgets (Cache.afterwards (earlier ++ occasion :: between) ∅) name := by
  let codec := Codec.ofSuite .chaCha20Poly1305
  let vault : Vault := { secretName := "S", secret := none, path := "r" }
  let entropy : Entropy := ⟨fun _ => 0, 0⟩
  obtain ⟨stored, -, -, hsealed⟩ := Codec.works_ofSuite .chaCha20Poly1305 (Bytes.ofText "p")
    (Container.empty .scrypt).toText .scrypt entropy
  let files := ({} : Files).insert ["c"] (.file stored 0o600)
  have hload : Storage.load codec files "c" "p" = .ok (.empty .scrypt) :=
    Storage.load_of_read rfl hsealed
  let forgetting : Occasion :=
    { session := { codec, agent := .dead Cache }, vault, task := .forget "d"
      storage := { entropy }, console := {}, output := [] }
  let remembering : Occasion :=
    { session := { codec, agent := .cache }, vault, task := .remember "c"
      storage := { files, entropy }, console := { answers := [some "p"] }, output := [] }
  have hagents : ∀ occasion ∈ [forgetting, remembering], occasion.session.agent.IsAgent := by
    intro occasion h
    rcases List.mem_cons.mp h with rfl | h
    · exact .inr (.inr rfl)
    · rw [List.mem_singleton.mp h]
      exact .inl rfl
  have hforgotten : (forgetting.run ∅).2.store = ∅ := by
    rcases hname : forgetting.nameOf "d" with fault | name
    · exact congrArg (·.2.store)
        (forgetting.session.run_forget_of_error (forgetting.start ∅) hname)
    · exact congrArg (·.2.store)
        (forgetting.session.run_forget (forgetting.start ∅) hname)
  have hname : remembering.nameOf "c" = .ok (Location.fingerprintOf "/c") :=
    Location.fingerprint_of_local (by decide) (by decide)
  -- The name itself does not matter, and it is long to work out.
  generalize Location.fingerprintOf "/c" = name at hname
  have hkept : (Cache.afterwards [forgetting, remembering] ∅)[name]? = some "p" := by
    have hremembered : (remembering.run ∅).2.store = (∅ : Cache).insert name "p" := by
      have hask : (Action.ask Question.password).run (remembering.start ∅) =
          (.ok "p", { remembering.start ∅ with
            console := { shown := [Question.password] } }) := rfl
      have hgive : (remembering.session.remember "c").run (remembering.start ∅) =
          (remembering.session.give name "p").run { remembering.start ∅ with
            console := { shown := [Question.password] } } :=
        Session.run_remember (by decide) hask hload hname
      show ((remembering.session.remember "c").run (remembering.start ∅)).2.store = _
      rw [hgive, Session.run_give]
      rfl
    show ((remembering.run (forgetting.run ∅).2.store).2.store)[name]? = some "p"
    rw [hforgotten, hremembered]
    exact Std.ExtTreeMap.getElem?_insert_self
  exact ⟨forgetting, remembering, name, hkept, cached_password_verified hagents hkept⟩

end Lockbox
