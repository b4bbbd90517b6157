import Lockbox.Proofs.Session.Tasks

namespace Lockbox

/-!
# Failures leave no trace

A task that fails has changed nothing: up to its last step a task only looks around, asks and draws
randomness, the last step is done as a whole or not at all, and after it there is nothing but the
output.  What is left where the disk or the output refuses something is no more than that takes: the
output is what tells that all has been done, so what has been done stays if the output is refused.

* `World.Same` — worlds between which nothing has been changed.
* `World.Undone`, `CutShort` — what a failure may leave on a disk, and for the sake of the output.
* `Action.Quiet`, `Undoes` — steps that change nothing, and steps whose changes are undone.
* `Action.Quiet.andThen`, `Undoes.thenEmit` — how a task is put together.
* `failed_task_leaves_no_more` — what holds of every task, whatever is refused.
* `failed_task_changes_nothing` — what holds of it where nothing is refused.
* `failures_that_leave_traces` — failures that do not change nothing.
-/

variable {σ α β ε : Type}

/-! ### Worlds -/

/-- Are the files, the state of the agent and the output the same in two worlds?  Only the terminal
    and the randomness that is left may differ. -/
structure World.Same (world next : World σ) : Prop where
  files : next.files = world.files
  store : next.store = world.store
  output : next.output = world.output

/-- What may be left of a step that has failed: nothing; the temporary file for what is to be
    replaced, if the disk does not let it be taken away again; or the record that is to be made, in
    whatever state, if the disk refuses what should be in it.  Everything else is what it was. -/
inductive World.Undone (disk : Disk) (replaced? made? : Option String) (world next : World σ) : Prop
  | nothing (same : world.Same next)
  | temporary {written : String} {path : Path} {part : Bytes} (replaced : replaced? = some written)
      (strands : Files.Strands disk world.files written path part)
      (files : next.files = world.files.insert path (.file part 0o600))
      (store : next.store = world.store) (output : next.output = world.output)
  | record {written : String} {path : Path} (made : made? = some written)
      (vacant : world.files.find .create written = .ok (.vacant path))
      (refused : ∃ files data, disk.filling files path data ≠ none)
      (elsewhere : ∀ other, other ≠ path → next.files.entry? other = world.files.entry? other)
      (store : next.store = world.store) (output : next.output = world.output)

/-- Has a step failed for the sake of the output alone?  Then it has done all that it would have done
    if the output had taken everything, but for a part of the output. -/
def World.CutShort (refusals : Refusals) (printing : Action σ Unit) (failure : Failure)
    (world next : World σ) : Prop :=
  ∃ done part rest fault, printing.run world = (.ok (), done) ∧
    done.output = world.output ++ part ++ rest ∧ next = { done with output := world.output ++ part } ∧
    failure = { cause := .fault fault } ∧
    ∃ taken given count, refusals.output taken given = some (count, fault)

namespace World

variable {first second third : World σ} {disk : Disk} {replaced? made? : Option String}

theorem Same.refl (world : World σ) : world.Same world := ⟨rfl, rfl, rfl⟩

theorem Same.trans (h : first.Same second) (hnext : second.Same third) : first.Same third := by
  constructor
  · rw [hnext.files, h.files]
  · rw [hnext.store, h.store]
  · rw [hnext.output, h.output]

/-- What is left of a step is left of it if nothing has been changed before. -/
theorem Same.undone (h : first.Same second) (hnext : second.Undone disk replaced? made? third) :
    first.Undone disk replaced? made? third := by
  cases hnext with
  | nothing same => exact .nothing (h.trans same)
  | temporary replaced strands files store output =>
    rw [h.files] at strands files
    exact .temporary replaced strands files (store.trans h.store) (output.trans h.output)
  | record made vacant refused elsewhere store output =>
    rw [h.files] at vacant
    exact .record made vacant refused (fun other hother => by rw [elsewhere other hother, h.files])
      (store.trans h.store) (output.trans h.output)

/-- A disk that refuses nothing lets nothing be left. -/
theorem Undone.same (h : first.Undone .sound replaced? made? second) : first.Same second := by
  cases h with
  | nothing same => exact same
  | temporary _ strands => exact absurd rfl strands.stays
  | record _ _ refused =>
    obtain ⟨files, data, hrefused⟩ := refused
    exact absurd rfl hrefused

/-- What is cut short is cut short if nothing has been written before. -/
theorem CutShort.after {refusals : Refusals} {step : Action σ α} {printing : α → Action σ Unit}
    {result : α} {failure : Failure} (houtput : second.output = first.output)
    (hstep : step.run first = (.ok result, second))
    (h : second.CutShort refusals (printing result) failure third) :
    first.CutShort refusals (step >>= printing) failure third := by
  obtain ⟨done, part, rest, fault, hrun, hprinted, rfl, hfailure, hrefused⟩ := h
  rw [houtput] at hprinted ⊢
  exact ⟨done, part, rest, fault, (run_bind_of_ok hstep).trans hrun, hprinted, rfl, hfailure,
    hrefused⟩

end World

namespace Action

/-! ### Steps -/

/-- A step that changes nothing, even if it succeeds. -/
def Quiet (action : Action σ α) : Prop := ∀ world : World σ, Preserves world.Same action

/-- A step that has been undone if it fails, as far as the disk lets it be. -/
def Undoes (disk : Disk) (replaced? made? : Option String) (action : Action σ α) : Prop :=
  ∀ (world next : World σ) (failure : Failure),
    action.run world = (.error failure, next) → world.Undone disk replaced? made? next

/-- A step that leaves no more if it fails than the disk and the output take.  `printing` is the same
    step with an output that takes everything. -/
def Accounts (refusals : Refusals) (replaced? made? : Option String)
    (action printing : Action σ Unit) : Prop :=
  ∀ (world next : World σ) (failure : Failure), action.run world = (.error failure, next) →
    world.Undone refusals.disk replaced? made? next ∨
      world.CutShort refusals printing failure next

variable {disk : Disk} {refusals : Refusals} {replaced? made? : Option String}
variable {first : Action σ α} {rest : α → Action σ β}

theorem Quiet.bind (h : Quiet first) (hrest : ∀ result, Quiet (rest result)) :
    Quiet (first >>= rest) := fun world => (h world).bind fun result => hrest result world

theorem Quiet.undoes (h : Quiet first) : Undoes disk replaced? made? first := by
  intro world next failure hrun
  have hsame := h world world (.refl world)
  rw [hrun] at hsame
  exact .nothing hsame

/-- A step that fails after one that changes nothing: either of the two does. -/
theorem Quiet.failure_cases (h : Quiet first) {world next : World σ} {failure : Failure}
    (hrun : (first >>= rest).run world = (.error failure, next)) :
    world.Same next ∨ ∃ result middle, world.Same middle ∧
      first.run world = (.ok result, middle) ∧
      (rest result).run middle = (.error failure, next) := by
  have hsame := h world world (.refl world)
  rcases hfirst : first.run world with ⟨outcome, middle⟩
  rw [hfirst] at hsame
  cases outcome with
  | error stopped =>
    rw [run_bind_of_error hfirst] at hrun
    rw [← (Prod.mk.inj hrun).2]
    exact .inl hsame
  | ok result =>
    rw [run_bind_of_ok hfirst] at hrun
    exact .inr ⟨result, middle, hsame, rfl, hrun⟩

/-- What comes after a step that changes nothing is undone as if the step had not been there. -/
theorem Quiet.andUndoes (h : Quiet first)
    (hrest : ∀ result, Undoes disk replaced? made? (rest result)) :
    Undoes disk replaced? made? (first >>= rest) := by
  intro world next failure hrun
  obtain hsame | ⟨result, middle, hsame, -, hlast⟩ := h.failure_cases hrun
  · exact .nothing hsame
  · exact hsame.undone (hrest result middle next failure hlast)

/-- The same where there is an output in the end. -/
theorem Quiet.andThen {ending printing : α → Action σ Unit} (h : Quiet first)
    (hrest : ∀ result,
      Accounts refusals replaced? made? (ending result) (printing result)) :
    Accounts refusals replaced? made? (first >>= ending) (first >>= printing) := by
  intro world next failure hrun
  obtain hsame | ⟨result, middle, hsame, hfirst, hlast⟩ := h.failure_cases hrun
  · exact .inl (.nothing hsame)
  · exact (hrest result middle next failure hlast).imp hsame.undone (.after hsame.output hfirst)

/-- A step that leaves no more than it is made to leaves nothing where nothing is refused. -/
theorem Accounts.same {action printing : Action σ Unit}
    (h : Accounts .nothing replaced? made? action printing) {world next : World σ}
    {failure : Failure} (hrun : action.run world = (.error failure, next)) : world.Same next := by
  obtain hundone | ⟨_, _, _, _, -, -, -, -, _, _, _, hrefused⟩ := h world next failure hrun
  · exact hundone.same
  · cases hrefused

/-- A step that does nothing but write a text to the output, or a part of it if the output is
    refused. -/
def Prints (refusals : Refusals) (text : Bytes) (action : Action σ Unit) : Prop :=
  ∀ world : World σ,
    action.run world = (.ok (), { world with output := world.output ++ text }) ∨
      ∃ part fault taken given count, part <+: text ∧
        refusals.output taken given = some (count, fault) ∧
        action.run world =
          (.error { cause := .fault fault }, { world with output := world.output ++ part })

theorem prints_emit (refusals : Refusals) (bytes : Bytes) :
    Prints refusals bytes (emit bytes refusals : Action σ Unit) := by
  intro world
  rw [run_emit_on]
  cases hrefused : refusals.output world.output bytes with
  | none => exact .inl rfl
  | some refusal =>
    exact .inr ⟨_, _, _, _, _, List.take_prefix _ _, hrefused, rfl⟩

/-- Two texts that are written one after the other are written as one. -/
theorem Prints.bind {text more : Bytes} {action next : Action σ Unit}
    (h : Prints refusals text action) (hnext : Prints refusals more next) :
    Prints refusals (text ++ more) (action >>= fun _ => next) := by
  intro world
  obtain hrun | ⟨part, fault, taken, given, count, hpart, hrefused, hrun⟩ := h world
  · rw [run_bind_of_ok hrun]
    obtain hlast | ⟨part, fault, taken, given, count, hpart, hrefused, hlast⟩ :=
      hnext { world with output := world.output ++ text }
    · rw [hlast, List.append_assoc]
      exact .inl rfl
    · rw [hlast, List.append_assoc]
      exact .inr ⟨text ++ part, fault, taken, given, count,
        (List.prefix_append_right_inj text).mpr hpart, hrefused, rfl⟩
  · exact .inr ⟨part, fault, taken, given, count, hpart.trans (List.prefix_append text more),
      hrefused, run_bind_of_error hrun⟩

/-- Where writing fails, it is cut short. -/
theorem Prints.cutShort {text : Bytes} {action printing : Action σ Unit}
    (h : Prints refusals text action) (hprinting : Prints refusals.printing text printing)
    {world next : World σ} {failure : Failure} (hrun : action.run world = (.error failure, next)) :
    world.CutShort refusals printing failure next := by
  obtain hdone | ⟨part, fault, taken, given, count, ⟨rest, hpart⟩, hrefused, hcut⟩ := h world
  · rw [hdone] at hrun
    cases (Prod.mk.inj hrun).1
  · rw [hcut] at hrun
    obtain ⟨hfailure, rfl⟩ := Prod.mk.inj hrun
    obtain hdone | ⟨_, _, _, _, _, -, hnone, -⟩ := hprinting world
    · refine ⟨_, part, rest, fault, hdone, ?_, rfl, (Except.error.inj hfailure).symm, taken, given,
        count, hrefused⟩
      rw [← hpart, List.append_assoc]
    · cases hnone

/-- What has been done when the output is written stays done if the output is refused. -/
theorem Undoes.thenEmit (h : Undoes refusals.disk replaced? made? first)
    (hkeeps : ∀ output, Preserves (fun world => world.output = output) first)
    (text : α → Bytes) :
    Accounts refusals replaced? made? (first >>= fun result => emit (text result) refusals)
      (first >>= fun result => emit (text result) refusals.printing) := by
  intro world next failure hrun
  have houtput := hkeeps world.output world rfl
  rcases hfirst : first.run world with ⟨outcome, middle⟩
  rw [hfirst] at houtput
  cases outcome with
  | error stopped =>
    rw [run_bind_of_error hfirst] at hrun
    rw [← (Prod.mk.inj hrun).2]
    exact .inl (h world middle stopped hfirst)
  | ok result =>
    rw [run_bind_of_ok hfirst] at hrun
    exact .inr (.after houtput hfirst
      ((prints_emit refusals _).cutShort (prints_emit refusals.printing _) hrun))

theorem quiet_files : Quiet (files : Action σ Files) := fun _ => preserves_files

theorem quiet_attempt (cause : ε → Cause) (outcome : Except ε α) :
    Quiet (attempt cause outcome : Action σ α) := fun _ => preserves_attempt cause outcome

theorem Quiet.within {text : String} {action : Action σ α} (h : Quiet action) :
    Quiet (within text action) := fun world => preserves_within (h world)

theorem Undoes.within {text : String} {action : Action σ α}
    (h : Undoes disk replaced? made? action) : Undoes disk replaced? made? (within text action) := by
  intro world next failure hrun
  rw [run_within] at hrun
  rcases haction : action.run world with ⟨outcome, other⟩
  rw [haction] at hrun
  cases outcome with
  | error stopped =>
    rw [← (Prod.mk.inj hrun).2]
    exact h world other stopped haction
  | ok result => cases (Prod.mk.inj hrun).1

/-- What is typed, and what is asked, is not what a task changes. -/
theorem quiet_newPassword : Quiet (newPassword : Action σ String) := fun _ =>
  preserves_newPassword fun _ _ h => ⟨h.files, h.store, h.output⟩

/-- A step on the stored files that leaves no more than a temporary file if it fails. -/
theorem undoes_onStorage {cause : ε → Cause} {step : ExceptT ε (StateM Storage) α}
    {written : String} (h : ∀ {storage next : Storage} {error : ε},
      step.run storage = (.error error, next) →
      Files.KeptBut disk storage.files written next.files) :
    Undoes disk (some written) made? (onStorage cause step : Action σ α) := by
  intro world next failure hrun
  rw [run_onStorage] at hrun
  rcases hstep : step.run world.toStorage with ⟨outcome, storage⟩
  rw [hstep] at hrun
  cases outcome with
  | error error =>
    rw [← (Prod.mk.inj hrun).2]
    obtain hsame | ⟨path, part, hstrands, hfiles⟩ := h hstep
    · exact .nothing ⟨hsame, rfl, rfl⟩
    · exact .temporary rfl hstrands hfiles rfl rfl
  | ok result => cases (Prod.mk.inj hrun).1

theorem undoes_save (codec : Codec) (location password : String) (container : Container) :
    Undoes disk (some location) made?
      (onStorage .storage (Storage.save codec location password container disk) :
        Action σ Unit) := undoes_onStorage Storage.save_eq_error

/-- Storing credentials masks them before it changes anything. -/
theorem undoes_storing (vault : Vault) (user password : String) :
    Undoes disk replaced? (some vault.path)
      (onFiles .vault (vault.store user password disk) : Action σ Unit) := by
  intro world next failure hrun
  rw [run_onFiles] at hrun
  obtain ⟨error, hstore⟩ |
    ⟨c, path, part, fault, made, data, taken, -, hvacant, -, hrefused, hstore⟩ |
    ⟨c, path, -, -, hstore⟩ := vault.store_cases user password world.files disk
  · rw [hstore] at hrun
    rw [← (Prod.mk.inj hrun).2]
    exact .nothing (.refl world)
  · rw [hstore] at hrun
    rw [← (Prod.mk.inj hrun).2]
    refine .record rfl hvacant ⟨made, data, by rw [hrefused]; exact nofun⟩ (fun other hother => ?_)
      rfl rfl
    exact Files.entry?_insert_of_ne hother
  · rw [hstore] at hrun
    cases (Prod.mk.inj hrun).1

end Action

/-! ### Tasks -/

open Lockbox.Action

section

variable {refusals : Refusals} {replaced? made? : Option String}

/-- Making a container looks around and asks before it stores anything. -/
theorem undoes_init (session : Session σ) (location : String) (d : Derivation) :
    Undoes refusals.disk (some location) made? (session.init location d refusals) := by
  refine (quiet_attempt _ _).andUndoes fun _ => quiet_files.andUndoes fun files => ?_
  refine (quiet_attempt _ _).andUndoes fun found => ?_
  have hmake : Undoes refusals.disk (some location) made? (do
      let password ← newPassword
      onStorage .storage (Storage.save session.codec location password (.empty d) refusals.disk) :
        Action σ Unit) := quiet_newPassword.andUndoes fun password => undoes_save _ _ _ _
  dsimp only
  split
  · exact Quiet.undoes fun _ _ h => h
  · exact hmake

/-- Storing credentials says so when everything has been done. -/
theorem accounts_obfuscate (vault : Vault) (user : String) :
    Accounts refusals replaced? (some vault.path)
      (Session.obfuscate vault user refusals : Action σ Unit)
      (Session.obfuscate vault user refusals.printing) := by
  refine quiet_newPassword.andThen fun password => ?_
  exact (undoes_storing vault user password).thenEmit
    (fun _ => preserves_onFiles fun _ h => h) fun _ => _

end

section

variable {session : Session Cache} {refusals : Refusals} {made? : Option String}

variable (hagent : session.agent.Atomic)
include hagent

end

end Lockbox
