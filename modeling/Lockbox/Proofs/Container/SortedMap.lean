import Lockbox.Proofs.Canonical
import Lockbox.Proofs.Steps

namespace Lockbox

/-!
# Containers as sorted maps

An operation works on the entries of a container in place.  It changes those that it names and no
others, or it refuses before it has changed any.  The names are listed in the order of their bytes,
each once, and they are just the names that have a text.

* `Container.withText`, `without` — one entry put in or taken out, and `upsert`, `delete`, `rename`
  in terms of them.
* `Operation.inPlace`, `run_inPlace` — operations step by step, and what comes of the steps.
* `Container.IsListed`, `isListed` — the list of the names.
* `Container.Keeps`, `Operation.Effect` — what each operation changes; `effect` — that it does.
* `get_run`, `derivation_run` — what any number of operations leaves as it was.
* `container_is_sorted_map` — what holds of all containers that come about.
-/

namespace Container

variable {c : Container} {name newName other text : String}

/-! ### One entry -/

/-- The container with this text under a name. -/
def withText (c : Container) (name text : String) : Container :=
  { c with entries := c.entries.insert name text }

/-- The container without the entry of a name. -/
def without (c : Container) (name : String) : Container :=
  { c with entries := c.entries.erase name }

/-- The names that are listed are those with a text. -/
theorem mem_names_iff : name ∈ c.names ↔ ∃ text, c.get name = .ok text := by
  rw [mem_names, Std.ExtTreeMap.mem_iff_isSome_getElem?, Option.isSome_iff_exists]
  exact exists_congr fun text => get_eq_ok_iff.symm

theorem notMem_names_iff : name ∉ c.names ↔ c.get name = .error (.missing name) := by
  rw [mem_names, Std.ExtTreeMap.mem_iff_isSome_getElem?, Option.not_isSome_iff_eq_none,
    get_eq_missing_iff]

theorem get_withText (c : Container) (name text other : String) :
    (c.withText name text).get other = if other = name then .ok text else c.get other := by
  by_cases hother : other = name
  · obtain rfl := hother
    rw [if_pos rfl, get_eq_ok_iff]
    exact Std.ExtTreeMap.getElem?_insert_self
  · have hcompare : ¬ compare name other = .eq :=
      fun heq => hother (Std.compare_eq_iff_eq.mp heq).symm
    unfold withText Container.get
    rw [if_neg hother, Std.ExtTreeMap.getElem?_insert, if_neg hcompare]

theorem get_without (c : Container) (name other : String) :
    (c.without name).get other = if other = name then .error (.missing name) else c.get other := by
  by_cases hother : other = name
  · obtain rfl := hother
    rw [if_pos rfl, get_eq_missing_iff]
    exact Std.ExtTreeMap.getElem?_erase_self
  · have hcompare : ¬ compare name other = .eq :=
      fun heq => hother (Std.compare_eq_iff_eq.mp heq).symm
    unfold without Container.get
    rw [if_neg hother, Std.ExtTreeMap.getElem?_erase, if_neg hcompare]

theorem mem_names_withText :
    other ∈ (c.withText name text).names ↔ other = name ∨ other ∈ c.names := by
  rw [mem_names, mem_names, withText, Std.ExtTreeMap.mem_insert, Std.compare_eq_iff_eq, eq_comm]

theorem mem_names_without : other ∈ (c.without name).names ↔ other ≠ name ∧ other ∈ c.names := by
  rw [mem_names, mem_names, without, Std.ExtTreeMap.mem_erase, Ne, Std.compare_eq_iff_eq, eq_comm]

theorem size_withText (c : Container) (name text : String) :
    (c.withText name text).size = if name ∈ c.names then c.size else c.size + 1 := by
  simp only [mem_names]
  exact Std.ExtTreeMap.size_insert

/-- Where an entry is taken out, there is one less. -/
theorem size_without (h : name ∈ c.names) : (c.without name).size + 1 = c.size := by
  have hpos : 0 < c.size := by
    rw [size, ← Std.ExtTreeMap.length_keys]
    exact List.length_pos_of_mem h
  have hsize : (c.without name).size = if name ∈ c.entries then c.size - 1 else c.size :=
    Std.ExtTreeMap.size_erase
  rw [if_pos (mem_names.mp h)] at hsize
  omega

/-- Taking out what is not there changes nothing. -/
theorem without_of_notMem (h : name ∉ c.names) : c.without name = c := by
  have hentries : c.entries.erase name = c.entries := by
    apply Std.ExtTreeMap.ext_getElem?
    intro other
    rw [Std.ExtTreeMap.getElem?_erase]
    split
    · rename_i heq
      obtain rfl := Std.compare_eq_iff_eq.mp heq
      exact (get_eq_missing_iff.mp (notMem_names_iff.mp h)).symm
    · rfl
  rw [without, hentries]

/-- An entry is reported as replaced if it was there. -/
theorem upsert_iff : (c.upsert name text).1 = true ↔ name ∈ c.names := mem_names.symm

theorem delete_of_mem (h : name ∈ c.names) : c.delete name = .ok (c.without name) :=
  if_pos (mem_names.mp h)

theorem delete_of_notMem (h : name ∉ c.names) : c.delete name = .error (.missing name) :=
  if_neg fun hmem => h (mem_names.mpr hmem)

theorem rename_of_notMem (h : name ∉ c.names) :
    c.rename name newName = .error (.missing name) := by
  rw [rename, get_eq_missing_iff.mp (notMem_names_iff.mp h)]

/-- A name that is taken is refused, be it the name that the entry has already. -/
theorem rename_of_taken (h : name ∈ c.names) (htaken : newName ∈ c.names) :
    c.rename name newName = .error (.taken newName) := by
  obtain ⟨text, hget⟩ := mem_names_iff.mp h
  rw [rename, get_eq_ok_iff.mp hget]
  exact if_pos (mem_names.mp htaken)

theorem rename_of_free (h : c.get name = .ok text) (hfree : newName ∉ c.names) :
    c.rename name newName = .ok ((c.without name).withText newName text) := by
  rw [rename, get_eq_ok_iff.mp h]
  exact if_neg fun hmem => hfree (mem_names.mpr hmem)

/-! ### Steps -/

/-- Refuses an operation where this holds of the entries as they are. -/
def refuseIf (p : Container → Prop) [DecidablePred p] (error : ContainerError) :
    ExceptT ContainerError (StateM Container) Unit := do
  if p (← getThe Container) then throw error

/-- Puts a text under a name, and gives the text that was there. -/
def exchange (name text : String) : StateM Container (Option String) :=
  modifyGet fun c => (c.entries[name]?, c.withText name text)

/-- Takes the entry of a name out, and gives the text that was there. -/
def takeOut (name : String) : StateM Container (Option String) :=
  modifyGet fun c => (c.entries[name]?, c.without name)

section

variable {p : Container → Prop} [DecidablePred p]

theorem run_refuseIf (error : ContainerError) (c : Container) :
    (refuseIf p error).run c = (if p c then .error error else .ok (), c) := by
  have hlook : (getThe Container : ExceptT ContainerError (StateM Container) _).run c =
      (.ok c, c) := rfl
  rw [refuseIf, run_bind_of_ok hlook]
  split <;> rfl

theorem run_refuseIf_of (error : ContainerError) (h : p c) :
    (refuseIf p error).run c = (.error error, c) := by
  rw [run_refuseIf, if_pos h]

theorem run_refuseIf_of_not (error : ContainerError) (h : ¬ p c) :
    (refuseIf p error).run c = (.ok (), c) := by
  rw [run_refuseIf, if_neg h]

end

theorem run_exchange (name text : String) (c : Container) :
    (liftM (exchange name text) : ExceptT ContainerError (StateM Container) _).run c =
      (.ok c.entries[name]?, c.withText name text) := rfl

theorem run_takeOut (name : String) (c : Container) :
    (liftM (takeOut name) : ExceptT ContainerError (StateM Container) _).run c =
      (.ok c.entries[name]?, c.without name) := rfl

/-- What an operation answers if it succeeds. -/
inductive Reply
  /-- There is an entry; has it taken the place of another? -/
  | stored (replaced : Bool)
  | done
  deriving DecidableEq, Repr

namespace Operation

/-- An operation on the entries in place, step by step.  What has been done stays done, even if the
    operation is refused later on. -/
def inPlace : Operation → ExceptT ContainerError (StateM Container) Reply
  | upsert name text => do
    let old ← exchange name text
    return .stored old.isSome
  | delete name => do
    match ← takeOut name with
    | some _ => return .done
    | none => throw (.missing name)
  | rename name newName => do
    refuseIf (name ∉ ·.names) (.missing name)
    refuseIf (newName ∈ ·.names) (.taken newName)
    if let some text ← takeOut name then
      let _ ← exchange newName text
    return .done
  | load text d => do
    set (← ofText? text d)
    return .done

/-- What an operation answers. -/
def reply (c : Container) : Operation → Except ContainerError Reply
  | upsert name text => .ok (.stored (c.upsert name text).1)
  | delete name => (c.delete name).map fun _ => .done
  | rename name newName => (c.rename name newName).map fun _ => .done
  | load text d => (ofText? text d).map fun _ => .done

/-- **Step by step an operation comes to what it is as a whole**, and leaves nothing half done. -/
theorem run_inPlace (operation : Operation) (c : Container) :
    operation.inPlace.run c = (operation.reply c, operation.apply c) := by
  cases operation with
  | upsert name text =>
    have hisSome : c.entries[name]?.isSome = (c.upsert name text).1 :=
      Std.ExtTreeMap.contains_eq_isSome_getElem?.symm
    rw [inPlace, run_bind_of_ok (run_exchange name text c), hisSome]
    rfl
  | delete name =>
    rw [inPlace, run_bind_of_ok (run_takeOut name c), reply, apply, perform]
    by_cases hname : name ∈ c.names
    · obtain ⟨text, hget⟩ := mem_names_iff.mp hname
      rw [delete_of_mem hname, get_eq_ok_iff.mp hget]
      rfl
    · rw [delete_of_notMem hname, get_eq_missing_iff.mp (notMem_names_iff.mp hname),
        without_of_notMem hname]
      rfl
  | rename name newName =>
    rw [inPlace, reply, apply, perform]
    by_cases hname : name ∈ c.names
    · rw [run_bind_of_ok (run_refuseIf_of_not _ (not_not_intro hname))]
      by_cases htaken : newName ∈ c.names
      · rw [run_bind_of_error (run_refuseIf_of _ htaken), rename_of_taken hname htaken]
        rfl
      · obtain ⟨text, hget⟩ := mem_names_iff.mp hname
        rw [run_bind_of_ok (run_refuseIf_of_not _ htaken), run_bind_of_ok (run_takeOut name c),
          rename_of_free hget htaken, get_eq_ok_iff.mp hget]
        rfl
    · rw [run_bind_of_error (run_refuseIf_of _ hname), rename_of_notMem hname]
      rfl
  | load text d =>
    rw [inPlace, run_bind, run_liftM_except, reply, apply, perform]
    cases ofText? text d with
    | error error => rfl
    | ok loaded => rfl

end Operation

/-! ### The list of the names -/

/-- Does the list of the names tell what is in a container? -/
structure IsListed (c : Container) : Prop where
  /-- The names are in the order of their bytes. -/
  ascending : c.names.Pairwise fun a b => Bytes.ofText a < Bytes.ofText b
  /-- No name is listed twice. -/
  nodup : c.names.Nodup
  /-- There are as many as there are entries. -/
  length : c.names.length = c.size
  /-- The names that are listed have a text. -/
  listed : ∀ name, name ∈ c.names ↔ ∃ text, c.get name = .ok text
  /-- All others are refused. -/
  unlisted : ∀ name, name ∉ c.names ↔ c.get name = .error (.missing name)

theorem isListed (c : Container) : c.IsListed where
  ascending := c.pairwise_names
  nodup := Std.ExtTreeMap.nodup_keys
  length := Std.ExtTreeMap.length_keys
  listed _ := mem_names_iff
  unlisted _ := notMem_names_iff

/-! ### What operations change -/

/-- Are the entries of all other names what they were, and the key derivation as well? -/
structure Keeps (c : Container) (names : List String) (next : Container) : Prop where
  /-- The other entries are what they were. -/
  others : ∀ other ∉ names, next.get other = c.get other
  /-- The container is stored with the same derivation. -/
  derivation : next.derivation = c.derivation

theorem keeps_withText (c : Container) (name text : String) :
    c.Keeps [name] (c.withText name text) := by
  refine ⟨fun other hother => ?_, rfl⟩
  rw [get_withText, if_neg (List.ne_of_not_mem_cons hother)]

theorem keeps_without (c : Container) (name : String) : c.Keeps [name] (c.without name) := by
  refine ⟨fun other hother => ?_, rfl⟩
  rw [get_without, if_neg (List.ne_of_not_mem_cons hother)]

/-- What two changes keep, they keep one after the other. -/
theorem Keeps.trans {names more : List String} {next last : Container} (h : c.Keeps names next)
    (hnext : next.Keeps more last) : c.Keeps (names ++ more) last := by
  refine ⟨fun other hother => ?_, hnext.derivation.trans h.derivation⟩
  obtain ⟨hnames, hmore⟩ := not_or.mp (fun hmem => hother (List.mem_append.mpr hmem))
  exact (hnext.others other hmore).trans (h.others other hnames)

namespace Operation

/-- Does an operation answer this, and leave this? -/
inductive Effect (c : Container) : Operation → Except ContainerError Reply → Container → Prop
  | upsert {name text : String} {replaced : Bool} {next : Container}
      (hreplaced : replaced = true ↔ name ∈ c.names) (hget : next.get name = .ok text)
      (hsize : next.size = if name ∈ c.names then c.size else c.size + 1)
      (hkeeps : c.Keeps [name] next) : Effect c (.upsert name text) (.ok (.stored replaced)) next
  | delete {name : String} {next : Container} (hname : name ∈ c.names)
      (hgone : name ∉ next.names) (hsize : next.size + 1 = c.size) (hkeeps : c.Keeps [name] next) :
      Effect c (.delete name) (.ok .done) next
  | rename {name newName text : String} {next : Container} (htext : c.get name = .ok text)
      (hfree : newName ∉ c.names) (hget : next.get newName = .ok text)
      (hgone : name ∉ next.names) (hsize : next.size = c.size)
      (hkeeps : c.Keeps [name, newName] next) : Effect c (.rename name newName) (.ok .done) next
  | load {text : Bytes} {d : Derivation} {next : Container} (htext : ofText? text d = .ok next) :
      Effect c (.load text d) (.ok .done) next
  | missing {operation : Operation} {name : String} (hname : name ∉ c.names)
      (hoperation : operation = .delete name ∨ ∃ newName, operation = .rename name newName) :
      Effect c operation (.error (.missing name)) c
  | taken {name newName : String} (hname : name ∈ c.names) (htaken : newName ∈ c.names) :
      Effect c (.rename name newName) (.error (.taken newName)) c
  | malformed {text : Bytes} {d : Derivation} (htext : ofText? text d = .error .malformed) :
      Effect c (.load text d) (.error .malformed) c

/-- A text that is refused describes no container. -/
theorem eq_malformed_of_ofText? {text : Bytes} {d : Derivation} {error : ContainerError}
    (h : ofText? text d = .error error) : error = .malformed := by
  unfold ofText? at h
  split at h
  · cases h
  · exact (Except.error.inj h).symm

/-- **Every operation changes the entries that it names and no others, or nothing at all.** -/
theorem effect (operation : Operation) (c : Container) :
    operation.Effect c (operation.reply c) (operation.apply c) := by
  cases operation with
  | upsert name text =>
    refine .upsert upsert_iff ?_ (size_withText c name text) (keeps_withText c name text)
    exact (get_withText c name text name).trans (if_pos rfl)
  | delete name =>
    rw [reply, apply, perform]
    by_cases hname : name ∈ c.names
    · rw [delete_of_mem hname]
      exact .delete hname (fun hmem => (mem_names_without.mp hmem).1 rfl) (size_without hname)
        (keeps_without c name)
    · rw [delete_of_notMem hname]
      exact .missing hname (.inl rfl)
  | rename name newName =>
    rw [reply, apply, perform]
    by_cases hname : name ∈ c.names
    · by_cases htaken : newName ∈ c.names
      · rw [rename_of_taken hname htaken]
        exact .taken hname htaken
      · obtain ⟨text, htext⟩ := mem_names_iff.mp hname
        have hne : name ≠ newName := fun heq => htaken (heq ▸ hname)
        have hfree : newName ∉ (c.without name).names :=
          fun hmem => htaken (mem_names_without.mp hmem).2
        rw [rename_of_free htext htaken]
        refine .rename htext htaken ?_ ?_ ?_ ((keeps_without c name).trans (keeps_withText _ _ _))
        · exact (get_withText _ newName text newName).trans (if_pos rfl)
        · rw [mem_names_withText, mem_names_without]
          simp [hne]
        · rw [size_withText, if_neg hfree, size_without hname]
    · rw [rename_of_notMem hname]
      exact .missing hname (.inr ⟨newName, rfl⟩)
  | load text d =>
    rw [reply, apply, perform]
    cases htext : ofText? text d with
    | ok next => exact .load htext
    | error error =>
      obtain rfl := eq_malformed_of_ofText? htext
      exact .malformed htext

/-! ### Any number of operations -/

/-- Does an operation concern a name?  Reading another container concerns all of them. -/
def Concerns (other : String) : Operation → Prop
  | upsert name _ | delete name => other ∈ [name]
  | rename name newName => other ∈ [name, newName]
  | load _ _ => True

/-- The key derivation that an operation sets: that of a container that it reads. -/
def derivation? : Operation → Option Derivation
  | load text d => (ofText? text d).toOption.map fun _ => d
  | upsert _ _ | delete _ | rename _ _ => none

variable {operation : Operation} {outcome : Except ContainerError Reply} {next : Container}

theorem Effect.get_of_not_concerns (h : operation.Effect c outcome next)
    (hother : ¬ operation.Concerns other) : next.get other = c.get other := by
  cases h with
  | upsert _ _ _ hkeeps | delete _ _ _ hkeeps | rename _ _ _ _ _ hkeeps =>
    exact hkeeps.others other hother
  | load => exact absurd trivial hother
  | missing | taken | malformed => rfl

theorem Effect.derivation (h : operation.Effect c outcome next) :
    next.derivation = operation.derivation?.getD c.derivation := by
  cases h with
  | upsert _ _ _ hkeeps | delete _ _ _ hkeeps | rename _ _ _ _ _ hkeeps => exact hkeeps.derivation
  | load htext =>
    rw [derivation?, htext]
    exact derivation_of_ofText? htext
  | missing _ hoperation => rcases hoperation with rfl | ⟨newName, rfl⟩ <;> rfl
  | taken => rfl
  | malformed htext =>
    rw [derivation?, htext]
    rfl

end Operation

/-- **What no operation concerns stays as it is.** -/
theorem get_run {operations : List Operation} {c : Container} {name : String}
    (h : ∀ operation ∈ operations, ¬ operation.Concerns name) :
    (run operations c).get name = c.get name := by
  -- On the operations; the container is arbitrary, since the first one changes it.
  induction operations generalizing c with
  | nil => rfl
  | cons operation later ih =>
    obtain ⟨hfirst, hlater⟩ := List.forall_mem_cons.mp h
    calc (run later (operation.apply c)).get name
      _ = (operation.apply c).get name := ih hlater
      _ = c.get name := (operation.effect c).get_of_not_concerns hfirst

/-- **The key derivation is that of the last container that has been read**, if any. -/
theorem derivation_run (operations : List Operation) (c : Container) :
    (run operations c).derivation =
      (operations.filterMap Operation.derivation?).getLast?.getD c.derivation := by
  induction operations generalizing c with
  | nil => rfl
  | cons operation later ih =>
    show (run later (operation.apply c)).derivation = _
    rw [ih, (operation.effect c).derivation, List.filterMap_cons]
    cases operation.derivation? with
    | none => rfl
    | some d => rw [Option.getD_some, List.getLast?_cons, Option.getD_some]

end Container

/-- **A container is a sorted map.**  Whatever has been done with it since it was empty: its names
    are listed in the order of their bytes, each once, and they are just the names that have a text.
    The next operation, step by step, answers and leaves what `Container.Operation.Effect` says: it
    changes what it names and nothing else, or it is refused and leaves everything as it was.  The
    texts that no later operation concerns stay what they are, and the key derivation is the one
    told at first, or with the last container that has been read. -/
theorem container_is_sorted_map (operations : List Container.Operation) (d : Derivation) :
    (Container.empty d).names = [] ∧
    let c := Container.run operations (.empty d)
    c.IsListed ∧
      (∀ operation : Container.Operation,
        operation.inPlace.run c = (operation.reply c, operation.apply c) ∧
        operation.Effect c (operation.reply c) (operation.apply c)) ∧
      (∀ later name, (∀ operation ∈ later, ¬ operation.Concerns name) →
        (Container.run later c).get name = c.get name) ∧
      c.derivation =
        (operations.filterMap Container.Operation.derivation?).getLast?.getD d := by
  refine ⟨rfl, Container.isListed _, fun operation => ⟨?_, ?_⟩, ?_, ?_⟩
  · exact operation.run_inPlace _
  · exact operation.effect _
  · exact fun later name => Container.get_run
  · exact Container.derivation_run operations (.empty d)

/-- Renaming an entry to itself is refused, and it stays as it is while others are renamed. -/
theorem entry_renamed_to_itself :
    let c := Container.run [.upsert "ab" "1", .upsert "a" "2"] (.empty .scrypt)
    let others : List Container.Operation := [.rename "ab" "b", .delete "x"]
    (Container.Operation.rename "a" "a").inPlace.run c = (.error (.taken "a"), c) ∧
      (∀ operation ∈ others, ¬ operation.Concerns "a") ∧
      (Container.run others c).get "a" = .ok "2" := by
  intro c others
  obtain ⟨-, -, hnext, hlater, -⟩ :=
    container_is_sorted_map [.upsert "ab" "1", .upsert "a" "2"] .scrypt
  have hothers : ∀ operation ∈ others, ¬ operation.Concerns "a" := by
    simp [others, Container.Operation.Concerns]
  exact ⟨(hnext (.rename "a" "a")).1, hothers, hlater others "a" hothers⟩

end Lockbox
