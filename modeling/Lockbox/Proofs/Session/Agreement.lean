import Lockbox.Proofs.Location
import Lockbox.Proofs.Session.Tasks

namespace Lockbox

/-!
# Agents that do not help

A task that opens something asks the agent for the password first.  An agent that gives none, for
whatever reason, is not noticed: the task does what it does with any other agent that gives none.
An agent that gives one is all that the task needs, and nothing that could be typed matters.

* `PasswordStore.Offers` — when an agent gives a password for a location.
* `Action.run_password_of_not_offers` — where the password comes from if no agent gives it.
* `Action.Agree` — steps with different agents that come to the same.
* `Task.opens?`, `Task.agree` — the tasks that open something, in two worlds.
* `agent_trouble_unnoticed` — what holds of them.
-/

variable {σ τ α β ε : Type}

/-! ### What an agent offers -/

/-- Does an agent give this password for a location?  The empty password is none. -/
def PasswordStore.Offers (agent : PasswordStore σ) (store : σ) (workingDirectory : Path)
    (location password : String) : Prop :=
  ∃ name, Location.fingerprint workingDirectory location = .ok name ∧
    ((agent.get name).run store).1 = .ok password ∧ password ≠ ""

namespace Action

section

variable {agent : PasswordStore σ} {location : String}

/-- Where the agent gives no password, whatever it says instead, the password is typed. -/
theorem run_password_of_not_offers (world : World σ)
    (h : ∀ given, ¬ agent.Offers world.store world.files.workingDirectory location given) :
    ∃ store, (password agent location).run world =
      (ask Question.password).run { world with store } := by
  cases hname : Location.fingerprint world.files.workingDirectory location with
  | error fault => exact ⟨world.store, run_password_of_unlocatable agent hname⟩
  | ok name =>
    refine ⟨((agent.get name).run world.store).2, run_password_of_no_get hname rfl ?_⟩
    intro given hget
    by_contra hgiven
    exact h given ⟨name, hname, hget, hgiven⟩

end

/-! ### Steps that agree -/

/-- Two steps, each with an agent of its own, that come to the same from worlds with one relation
    and leave worlds with another. -/
def Agree (P : World σ → World τ → Prop) (first : Action σ α) (second : Action τ α)
    (Q : World σ → World τ → Prop) : Prop :=
  ∀ world other, P world other →
    (second.run other).1 = (first.run world).1 ∧ Q (first.run world).2 (second.run other).2

section

variable {P Q R : World σ → World τ → Prop}

/-- One step after the other.  If the first one fails, the relation in between is the last one. -/
theorem Agree.bind {first : Action σ α} {second : Action τ α} {rest : α → Action σ β}
    {last : α → Action τ β} (h : Agree P first second Q)
    (hstop : ∀ world other, Q world other → R world other)
    (hrest : ∀ result, Agree Q (rest result) (last result) R) :
    Agree P (first >>= rest) (second >>= last) R := by
  intro world other hworld
  obtain ⟨houtcome, hnext⟩ := h world other hworld
  rcases hfirst : first.run world with ⟨outcome, middle⟩
  rcases hsecond : second.run other with ⟨result, between⟩
  rw [hfirst, hsecond] at houtcome hnext
  dsimp only at houtcome
  obtain rfl := houtcome
  cases result with
  | error failure =>
    rw [run_bind_of_error hfirst, run_bind_of_error hsecond]
    exact ⟨rfl, hstop _ _ hnext⟩
  | ok result =>
    rw [run_bind_of_ok hfirst, run_bind_of_ok hsecond]
    exact hrest result _ _ hnext

theorem Agree.within {text : String} {first : Action σ α} {second : Action τ α}
    (h : Agree P first second Q) : Agree P (within text first) (within text second) Q := by
  intro world other hworld
  obtain ⟨houtcome, hnext⟩ := h world other hworld
  rw [run_within, run_within, houtcome]
  exact ⟨rfl, hnext⟩

theorem agree_pure (result : α) : Agree P (pure result : Action σ α) (pure result : Action τ α) P :=
  fun _ _ h => ⟨rfl, h⟩

theorem agree_attempt (cause : ε → Cause) (outcome : Except ε α) :
    Agree P (attempt cause outcome : Action σ α) (attempt cause outcome : Action τ α) P := by
  intro world other h
  rw [run_attempt, run_attempt]
  exact ⟨rfl, h⟩

/-- Both steps see the same files. -/
theorem agree_files (h : ∀ world other, P world other → other.files = world.files) :
    Agree P (files : Action σ Files) (files : Action τ Files) P := by
  intro world other hworld
  rw [run_files, run_files, h world other hworld]
  exact ⟨rfl, hworld⟩

end

end Action

/-- Two worlds with the same files, the same randomness and the same output, whose agents and
    terminals are related in some way. -/
structure World.Like (related : σ × Console → τ × Console → Prop) (world : World σ)
    (other : World τ) : Prop where
  storage : other.toStorage = world.toStorage
  output : other.output = world.output
  others : related (world.store, world.console) (other.store, other.console)

namespace Action

variable {related : σ × Console → τ × Console → Prop}

theorem agree_emit (bytes : Bytes) :
    Agree (World.Like related) (emit bytes : Action σ Unit) (emit bytes : Action τ Unit)
      (World.Like related) := by
  intro world other h
  refine ⟨rfl, h.storage, ?_, h.others⟩
  show other.output ++ bytes = world.output ++ bytes
  rw [h.output]

theorem agree_onStorage (cause : ε → Cause) (step : ExceptT ε (StateM Storage) α) :
    Agree (World.Like related) (onStorage cause step : Action σ α)
      (onStorage cause step : Action τ α) (World.Like related) := by
  intro world other h
  rw [run_onStorage, run_onStorage, h.storage]
  exact ⟨rfl, rfl, h.output, h.others⟩

end Action

/-! ### Tasks that open something -/

/-- What a task opens: the container at a location, or the envelope in a file. -/
def Task.opens? : Task → Option String
  | list location | get location _ | put location _ _ | delete location _ | rename location _ _ =>
    some location
  | decrypt input _ => some input
  | _ => none

section

open Lockbox.Action

variable {first : Session σ} {second : Session τ} {start : World σ} {begin : World τ}
variable {related : σ × Console → τ × Console → Prop} {location : String}
variable (hcodec : second.codec = first.codec) (hstart : World.Like related start begin)
variable (hpassword : Agree (fun world other => world = start ∧ other = begin)
  (password first.agent location) (password second.agent location) (World.Like related))
include hcodec hstart hpassword

/-- Opening a container looks only at its file, once the password is known. -/
theorem agree_unlock : Agree (fun world other => world = start ∧ other = begin)
    (first.unlock location) (second.unlock location) (World.Like related) := by
  unfold Session.unlock
  refine (agree_attempt _ _).bind ?_ fun _ => hpassword.within.bind (fun _ _ h => h) fun typed => ?_
  · rintro _ _ ⟨rfl, rfl⟩
    exact hstart
  · refine Agree.bind ?_ (fun _ _ h => h) fun container => agree_pure (container, typed)
    unfold Session.openWith
    refine (agree_files fun _ _ h => congrArg Storage.files h.storage).bind (fun _ _ h => h) ?_
    intro seen
    rw [hcodec]
    exact (agree_attempt _ _).within

/-- So does changing one. -/
theorem agree_modify (edit : Container → Except ContainerError (α × Container)) :
    Agree (fun world other => world = start ∧ other = begin)
      (first.modify location edit) (second.modify location edit) (World.Like related) := by
  unfold Session.modify
  refine (agree_unlock hcodec hstart hpassword).bind (fun _ _ h => h) fun opened => ?_
  refine (agree_attempt _ _).bind (fun _ _ h => h) fun changed => ?_
  rw [hcodec]
  exact (agree_onStorage _ _).within.bind (fun _ _ h => h) fun _ => agree_pure _

/-- **A task that opens something** comes to the same in two worlds with different agents and
    terminals, if getting the password does. -/
theorem Task.agree (vault : Vault) {task : Task} (htask : task.opens? = some location) :
    Agree (fun world other => world = start ∧ other = begin)
      (task.run first vault) (task.run second vault) (World.Like related) := by
  have hfiles : Agree (fun world other => world = start ∧ other = begin)
      (files : Action σ Files) (files : Action τ Files)
      (fun world other => world = start ∧ other = begin) := by
    refine agree_files ?_
    rintro _ _ ⟨rfl, rfl⟩
    exact congrArg Storage.files hstart.storage
  have hstop : ∀ (world : World σ) (other : World τ), world = start ∧ other = begin →
      World.Like related world other := by
    rintro _ _ ⟨rfl, rfl⟩
    exact hstart
  cases task with
  | list place =>
    obtain rfl := Option.some.inj htask
    exact (agree_unlock hcodec hstart hpassword).bind (fun _ _ h => h) fun opened => agree_emit _
  | get place name =>
    obtain rfl := Option.some.inj htask
    refine (agree_unlock hcodec hstart hpassword).bind (fun _ _ h => h) fun opened => ?_
    exact (agree_attempt _ _).bind (fun _ _ h => h) fun text => agree_emit _
  | put place name valueFile =>
    obtain rfl := Option.some.inj htask
    refine hfiles.bind hstop fun seen => (agree_attempt _ _).within.bind hstop fun text => ?_
    refine (agree_modify hcodec hstart hpassword _).bind (fun _ _ h => h) fun replaced => ?_
    exact agree_emit _
  | delete place name =>
    obtain rfl := Option.some.inj htask
    exact agree_modify hcodec hstart hpassword _
  | rename place name newName =>
    obtain rfl := Option.some.inj htask
    exact agree_modify hcodec hstart hpassword _
  | decrypt input output =>
    obtain rfl := Option.some.inj htask
    refine hfiles.bind hstop fun seen => (agree_attempt _ _).within.bind hstop fun stored => ?_
    refine hpassword.bind (fun _ _ h => h) fun typed => ?_
    rw [hcodec]
    refine (agree_attempt _ _).within.bind (fun _ _ h => h) fun opened => ?_
    cases output with
    | some path => exact agree_onStorage _ _
    | none => exact agree_emit _
  | init _ _ | encrypt _ _ _ | remember _ | forget _ | obfuscate _ | variableNames => cases htask

end

/-- A task that opens something, with all that it finds but the agent and the terminal. -/
structure Opening where
  /-- How texts are wrapped. -/
  codec : Codec
  /-- Where credentials are kept. -/
  vault : Vault
  /-- The task. -/
  task : Task
  /-- What it opens. -/
  location : String
  /-- It is what the task opens. -/
  opens : task.opens? = some location
  /-- The files, and the randomness. -/
  storage : Storage
  /-- The output so far. -/
  output : Bytes := []

namespace Opening

variable (opening : Opening)

/-- Does an agent give this password for what is opened? -/
def Offered (agent : PasswordStore σ) (store : σ) (password : String) : Prop :=
  agent.Offers store opening.storage.files.workingDirectory opening.location password

/-- The world that the task finds. -/
def start (store : σ) (console : Console) : World σ :=
  { toStorage := opening.storage, store, console, output := opening.output }

/-- Carries out the task: how it ends, and the world after it. -/
def run (agent : PasswordStore σ) (store : σ) (console : Console) :
    Except Failure Unit × World σ :=
  (opening.task.run { codec := opening.codec, agent } opening.vault).run
    (opening.start store console)

/-- Two runs come to the same if getting the password does. -/
theorem agree (first : PasswordStore σ) (second : PasswordStore τ) {s : σ} {t : τ}
    {console other : Console} {related : σ × Console → τ × Console → Prop}
    (hstart : World.Like related (opening.start s console) (opening.start t other))
    (hpassword : Action.Agree
      (fun one two => one = opening.start s console ∧ two = opening.start t other)
      (Action.password first opening.location) (Action.password second opening.location)
      (World.Like related)) :
    (opening.run second t other).1 = (opening.run first s console).1 ∧
      World.Like related (opening.run first s console).2 (opening.run second t other).2 := by
  have hcodec : ({ codec := opening.codec, agent := second } : Session τ).codec =
      ({ codec := opening.codec, agent := first } : Session σ).codec := rfl
  exact Task.agree hcodec hstart hpassword opening.vault opening.opens _ _ ⟨rfl, rfl⟩

end Opening

/-- **Trouble with the agent goes unnoticed.**  Any two agents that give no password for what a task
    opens, be it that they lack it, have an empty one or do not answer at all, make no difference:
    the same questions are asked, and the outcome, the files and the output are the same.  And if an
    agent gives one, nothing is asked and nothing that could be typed makes a difference. -/
theorem agent_trouble_unnoticed (opening : Opening) :
    (∀ {σ τ : Type} (first : PasswordStore σ) (second : PasswordStore τ) (s : σ) (t : τ),
      (∀ given, ¬ opening.Offered first s given) → (∀ given, ¬ opening.Offered second t given) →
      ∀ console, (opening.run second t console).1 = (opening.run first s console).1 ∧
        (opening.run second t console).2.console = (opening.run first s console).2.console ∧
        (opening.run second t console).2.toStorage = (opening.run first s console).2.toStorage ∧
        (opening.run second t console).2.output = (opening.run first s console).2.output) ∧
    ∀ {σ : Type} (agent : PasswordStore σ) (s : σ) (given : String), opening.Offered agent s given →
      ∀ console other, (opening.run agent s console).2.console = console ∧
        (opening.run agent s other).1 = (opening.run agent s console).1 ∧
        (opening.run agent s other).2.store = (opening.run agent s console).2.store ∧
        (opening.run agent s other).2.toStorage = (opening.run agent s console).2.toStorage ∧
        (opening.run agent s other).2.output = (opening.run agent s console).2.output := by
  constructor
  · intro σ τ first second s t hfirst hsecond console
    -- The terminals go together: both are asked, or neither is.
    have hpassword : Action.Agree
        (fun world other => world = opening.start s console ∧ other = opening.start t console)
        (Action.password first opening.location) (Action.password second opening.location)
        (World.Like fun one two => two.2 = one.2) := by
      rintro _ _ ⟨rfl, rfl⟩
      obtain ⟨left, hone⟩ :=
        Action.run_password_of_not_offers (opening.start s console) hfirst
      obtain ⟨right, htwo⟩ :=
        Action.run_password_of_not_offers (opening.start t console) hsecond
      rw [hone, htwo, Action.run_ask, Action.run_ask]
      exact ⟨rfl, rfl, rfl, rfl⟩
    obtain ⟨houtcome, hlike⟩ := opening.agree first second ⟨rfl, rfl, rfl⟩ hpassword
    exact ⟨houtcome, hlike.others, hlike.storage, hlike.output⟩
  · rintro σ agent s given ⟨name, hname, hget, hgiven⟩ console other
    have hasked : (agent.get name).run s = (.ok given, ((agent.get name).run s).2) :=
      Prod.ext hget rfl
    -- The terminals stay what they were, and the agents stay the same.
    let related (one two : σ × Console) : Prop :=
      (one.2 = console ∧ two.2 = other) ∧ two.1 = one.1
    have hstart : World.Like related (opening.start s console) (opening.start s other) :=
      ⟨rfl, rfl, ⟨rfl, rfl⟩, rfl⟩
    have hpassword : Action.Agree
        (fun one two => one = opening.start s console ∧ two = opening.start s other)
        (Action.password agent opening.location) (Action.password agent opening.location)
        (World.Like related) := by
      rintro _ _ ⟨rfl, rfl⟩
      have hone : (Action.password agent opening.location).run (opening.start s console) = _ :=
        Action.run_password_of_get hname hasked hgiven
      have htwo : (Action.password agent opening.location).run (opening.start s other) = _ :=
        Action.run_password_of_get hname hasked hgiven
      rw [hone, htwo]
      exact ⟨rfl, rfl, rfl, ⟨rfl, rfl⟩, rfl⟩
    obtain ⟨houtcome, hlike⟩ := opening.agree agent agent hstart hpassword
    exact ⟨hlike.others.1.1, houtcome, hlike.others.2, hlike.storage, hlike.output⟩

/-- A container that is listed with an agent that does not answer, with one that has the empty
    password for it, and with one that has the right one. -/
theorem listed_with_any_agent :
    ∃ (opening : Opening) (name : String), opening.task = .list "c" ∧
      (∃ container, Storage.load opening.codec opening.storage.files "c" "p" = .ok container) ∧
      let empty := (∅ : Cache).insert name ""
      let kept := (∅ : Cache).insert name "p"
      (∀ given, ¬ opening.Offered (.dead Unit) () given) ∧
        (∀ given, ¬ opening.Offered .cache empty given) ∧ opening.Offered .cache kept "p" ∧
        ∀ console, (opening.run .cache empty console).1 = (opening.run (.dead Unit) () console).1 ∧
          (opening.run .cache kept console).2.console = console ∧
          (opening.run .cache kept {}).1 = (opening.run .cache kept console).1 := by
  let codec := Codec.ofSuite .chaCha20Poly1305
  let entropy : Entropy := ⟨fun _ => 0, 0⟩
  obtain ⟨stored, -, -, hsealed⟩ := Codec.works_ofSuite .chaCha20Poly1305 (Bytes.ofText "p")
    (Container.empty .scrypt).toText .scrypt entropy
  let files := ({} : Files).insert ["c"] (.file stored 0o600)
  let opening : Opening :=
    { codec, vault := { secretName := "S", secret := none, path := "r" }, task := .list "c"
      location := "c", opens := rfl, storage := { files, entropy } }
  have hload : Storage.load codec files "c" "p" = .ok (.empty .scrypt) :=
    Storage.load_of_read rfl hsealed
  have hname : Location.fingerprint files.workingDirectory "c" =
      .ok (Location.fingerprintOf "/c") := Location.fingerprint_of_local (by decide) (by decide)
  -- The name itself does not matter, and it is long to work out.
  generalize Location.fingerprintOf "/c" = name at hname
  have hget : ∀ password : String, ((PasswordStore.cache.get name).run
      ((∅ : Cache).insert name password)).1 = .ok password := by
    intro password
    rw [PasswordStore.cache_get, Std.ExtTreeMap.getElem?_insert_self]
    rfl
  have hdead : ∀ given, ¬ opening.Offered (.dead Unit) () given := by
    rintro given ⟨_, -, hanswer, -⟩
    cases hanswer
  have hempty : ∀ given, ¬ opening.Offered .cache ((∅ : Cache).insert name "") given := by
    rintro given ⟨other, hother, hanswer, hgiven⟩
    obtain rfl := Except.ok.inj (hname.symm.trans hother)
    exact hgiven (Except.ok.inj ((hget "").symm.trans hanswer)).symm
  have hkept : opening.Offered .cache ((∅ : Cache).insert name "p") "p" :=
    ⟨name, hname, hget "p", by decide⟩
  obtain ⟨hsilent, hoffered⟩ := agent_trouble_unnoticed opening
  refine ⟨opening, name, rfl, ⟨_, hload⟩, hdead, hempty, hkept, fun console => ?_⟩
  obtain ⟨hquiet, hdone, -⟩ := hoffered _ _ "p" hkept console {}
  exact ⟨(hsilent _ _ () _ hdead hempty console).1, hquiet, hdone⟩

end Lockbox
