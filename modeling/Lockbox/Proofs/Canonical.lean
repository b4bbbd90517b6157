import Lockbox.Proofs.Container
import Lockbox.Proofs.Decoding
import Mathlib.Data.List.Sort

namespace Lockbox

/-!
# One text for each container

However a container has come about, its text is told by its entries alone: they are listed in the
order of their names, each once.  What is read from a text that repeats names is written with the
last entry of each.

* `Container.Operation`, `Container.run` — what can be done with containers, one after the other.
* `Container.LastText` — the last text that is listed for a name.
* `Container.ofText?_toText_of` — a container read back with any key derivation.
* `Container.toList_eq_of_pairwise` — the entries of a container, listed in order.
* `canonical_text` — what the texts of containers come to.
-/

namespace Container

/-! ### Operations -/

/-- What can be done with a container. -/
inductive Operation
  | upsert (name text : String)
  | delete (name : String)
  | rename (name newName : String)
  /-- Reads another container in its place. -/
  | load (text : Bytes) (d : Derivation)

/-- What comes of an operation. -/
def Operation.perform (c : Container) : Operation → Except ContainerError Container
  | upsert name text => .ok (c.upsert name text).2
  | delete name => c.delete name
  | rename name newName => c.rename name newName
  | load text d => ofText? text d

/-- What is there after an operation: if it fails, what was there before. -/
def Operation.apply (c : Container) (operation : Operation) : Container :=
  match operation.perform c with
  | .ok next => next
  | .error _ => c

/-- What is there after some operations. -/
def run (operations : List Operation) (c : Container) : Container :=
  operations.foldl Operation.apply c

/-! ### Entries -/

variable {c : Container} {name text : String} {entries : List (String × String)}

theorem get_eq_ok_iff : c.get name = .ok text ↔ c.entries[name]? = some text := by
  unfold get
  cases c.entries[name]? <;> simp

theorem get_eq_missing_iff : c.get name = .error (.missing name) ↔ c.entries[name]? = none := by
  unfold get
  cases c.entries[name]? <;> simp

/-- Is this the last text that is listed for the name? -/
def LastText (entries : List (String × String)) (name text : String) : Prop :=
  ∃ before after, entries = before ++ (name, text) :: after ∧ name ∉ after.map Prod.fst

theorem not_lastText_nil : ¬ LastText [] name text := by
  rintro ⟨before, after, hentries, -⟩
  exact List.append_ne_nil_of_right_ne_nil before (List.cons_ne_nil _ after) hentries.symm

/-- The first entry of a list counts if its name is not listed again. -/
theorem lastText_cons_iff {entry : String × String} :
    LastText (entry :: entries) name text ↔ LastText entries name text ∨
      entry = (name, text) ∧ name ∉ entries.map Prod.fst := by
  constructor
  · rintro ⟨before, after, hentries, hlast⟩
    cases before with
    | nil =>
      obtain ⟨rfl, rfl⟩ := List.cons.inj hentries
      exact .inr ⟨rfl, hlast⟩
    | cons first before =>
      obtain ⟨-, rfl⟩ := List.cons.inj hentries
      exact .inl ⟨before, after, rfl, hlast⟩
  · rintro (⟨before, after, rfl, hlast⟩ | ⟨rfl, hlast⟩)
    · exact ⟨entry :: before, after, rfl, hlast⟩
    · exact ⟨[], entries, rfl, hlast⟩

/-- The last text of a name is listed. -/
theorem LastText.mem (h : LastText entries name text) : name ∈ entries.map Prod.fst := by
  obtain ⟨before, after, rfl, -⟩ := h
  simp

/-- A name that is listed has a last text. -/
theorem exists_lastText_iff :
    (∃ text, LastText entries name text) ↔ name ∈ entries.map Prod.fst := by
  refine ⟨fun ⟨text, h⟩ => h.mem, fun h => ?_⟩
  induction entries with
  | nil => cases h
  | cons entry entries ih =>
    by_cases hmore : name ∈ entries.map Prod.fst
    · obtain ⟨text, hlast⟩ := ih hmore
      exact ⟨text, lastText_cons_iff.mpr (.inl hlast)⟩
    · have hfirst : name = entry.1 := by
        rw [List.map_cons, List.mem_cons] at h
        exact h.resolve_right hmore
      exact ⟨entry.2, lastText_cons_iff.mpr (.inr ⟨by rw [hfirst], hmore⟩)⟩

/-- Entries that are put into a map one after the other: the last one of a name is there, and what
    was there before only if its name is not listed. -/
theorem getElem?_foldl_insert (map : Std.ExtTreeMap String String) :
    (entries.foldl (fun map entry => map.insert entry.1 entry.2) map)[name]? = some text ↔
      LastText entries name text ∨ name ∉ entries.map Prod.fst ∧ map[name]? = some text := by
  -- On the entries, for any map: the first one is put into it before all others.
  induction entries generalizing map with
  | nil => simp [not_lastText_nil]
  | cons entry entries ih =>
    rw [List.foldl_cons, ih, lastText_cons_iff, Std.ExtTreeMap.getElem?_insert, or_assoc]
    refine or_congr_right ?_
    rw [List.map_cons, List.mem_cons, not_or]
    by_cases hname : entry.1 = name
    · rw [if_pos (Std.compare_eq_iff_eq.mpr hname)]
      obtain ⟨own, value⟩ := entry
      obtain rfl : own = name := hname
      simp [and_comm]
    · rw [if_neg (fun heq => hname (Std.compare_eq_iff_eq.mp heq))]
      have hentry : entry ≠ (name, text) := fun heq => hname (heq ▸ rfl)
      simp [hentry, Ne.symm hname]

/-! ### Texts -/

/-- **What is read from a text.**  Each name has its last text, and nothing else is there. -/
theorem get_of_ofText? {b : Bytes} {d : Derivation} (h : ofText? b d = .ok c) :
    c.derivation = d ∧ ∃ items entries, (Json.array items).WrittenAs b ∧
      List.Forall₂ (fun item entry => entryOfJson? item = some entry) items entries ∧
      (∀ name text, c.get name = .ok text ↔ LastText entries name text) ∧
      ∀ name, c.get name = .error (.missing name) ↔ name ∉ entries.map Prod.fst := by
  obtain ⟨items, entries, hwritten, hentries, rfl⟩ := ofText?_eq_ok_iff.mp h
  have hget : ∀ name text, (entries.foldl (fun map entry => map.insert entry.1 entry.2)
      (∅ : Std.ExtTreeMap String String))[name]? = some text ↔ LastText entries name text := by
    intro name text
    rw [getElem?_foldl_insert]
    simp
  refine ⟨rfl, items, entries, hwritten, hentries, fun name text => ?_, fun name => ?_⟩
  · rw [get_eq_ok_iff]
    exact hget name text
  · rw [get_eq_missing_iff, Option.eq_none_iff_forall_ne_some, ← exists_lastText_iff, not_exists]
    exact forall_congr' fun text => (hget name text).not

/-- A container reads back with any key derivation. -/
theorem ofText?_toText_of (c : Container) (k : Derivation) :
    ofText? c.toText k = .ok { c with derivation := k } :=
  ofText?_toText { c with derivation := k }

/-- The entries that are there are all that a text depends on. -/
theorem toText_congr {other : Container}
    (h : ∀ name text, c.get name = .ok text ↔ other.get name = .ok text) :
    c.toText = other.toText := by
  have hentries : c.entries = other.entries := by
    apply Std.ExtTreeMap.ext_getElem?
    intro name
    apply Option.ext
    intro text
    rw [← get_eq_ok_iff, ← get_eq_ok_iff]
    exact h name text
  rw [toText, toText, toJson, toJson, hentries]

/-- The entries of a container are listed in the order of the bytes of their names. -/
theorem pairwise_toList (c : Container) :
    c.entries.toList.Pairwise fun a b => Bytes.ofText a.1 < Bytes.ofText b.1 := by
  have hnames := c.pairwise_names
  rw [names, ← Std.ExtTreeMap.map_fst_toList_eq_keys, List.pairwise_map] at hnames
  exact hnames

/-- There is only one such list. -/
theorem toList_eq_of_pairwise
    (hpairwise : entries.Pairwise fun a b => Bytes.ofText a.1 < Bytes.ofText b.1)
    (hentries : ∀ name text, (name, text) ∈ entries ↔ c.get name = .ok text) :
    c.entries.toList = entries := by
  let before (a b : String × String) : Prop := Bytes.ofText a.1 < Bytes.ofText b.1
  have hirrefl : Std.Irrefl before := ⟨fun a => List.lt_irrefl (Bytes.ofText a.1)⟩
  have hantisymm : Std.Antisymm before := ⟨fun a b hab hba => absurd hba (List.lt_asymm hab)⟩
  refine List.Pairwise.eq_of_mem_iff (r := before) c.pairwise_toList hpairwise ?_
  rintro ⟨name, text⟩
  rw [hentries, get_eq_ok_iff, Std.ExtTreeMap.mem_toList_iff_getElem?_eq_some]

end Container

/-- **One text for each container.**  Whatever has been done with a container, its text reads back
    as just its entries, with the key derivation that is told.  A text that is read gives each name
    the last text that is listed for it, and what is written for that is written again when it is
    read.  Containers with the same entries have the same text, however they have come about: their
    entries in the order of the bytes of their names, indented by four blanks. -/
theorem canonical_text :
    (∀ operations d k, let c := Container.run operations (.empty d)
      Container.ofText? c.toText k = .ok { c with derivation := k }) ∧
    (∀ b d c, Container.ofText? b d = .ok c →
      (c.derivation = d ∧ ∃ items entries, (Json.array items).WrittenAs b ∧
        List.Forall₂ (fun item entry => Container.entryOfJson? item = some entry) items entries ∧
        (∀ name text, c.get name = .ok text ↔ Container.LastText entries name text) ∧
        ∀ name, c.get name = .error (.missing name) ↔ name ∉ entries.map Prod.fst) ∧
      ∀ k, ∃ again, Container.ofText? c.toText k = .ok again ∧ again.toText = c.toText) ∧
    ∀ operations d, let c := Container.run operations (.empty d)
      (∀ others k, let other := Container.run others (.empty k)
        (∀ name text, c.get name = .ok text ↔ other.get name = .ok text) →
          c.toText = other.toText) ∧
      ∀ entries : List (String × String),
        (entries.Pairwise fun a b => Bytes.ofText a.1 < Bytes.ofText b.1) →
        (∀ name text, (name, text) ∈ entries ↔ c.get name = .ok text) →
          c.toText = (Json.array (entries.map fun entry =>
            Container.entryToJson entry.1 entry.2)).print (.indented 4) := by
  refine ⟨fun operations d k => Container.ofText?_toText_of _ k, fun b d c h => ⟨?_, fun k => ?_⟩,
    fun operations d => ⟨fun others k => Container.toText_congr, ?_⟩⟩
  · exact Container.get_of_ofText? h
  · exact ⟨_, Container.ofText?_toText_of c k, rfl⟩
  · intro entries hpairwise hentries
    rw [Container.toText, Container.toJson, Container.toList_eq_of_pairwise hpairwise hentries]

/-- A text that repeats a name is read with its last entry, and a container has the same text
    whether this entry was put there or given another name. -/
theorem last_entry_counts :
    let b := Bytes.ofText ("[\x7b\"Key\":\"a\",\"Text\":\"1\"\x7d," ++
      "\x7b\"Key\":\"a\",\"Text\":\"2\"\x7d]")
    (∃ c, Container.ofText? b .scrypt = .ok c ∧ c.derivation = .scrypt ∧ c.get "a" = .ok "2" ∧
      ∃ again, Container.ofText? c.toText .argon2id = .ok again ∧ again.toText = c.toText) ∧
    (Container.run [.upsert "a" "2"] (.empty .scrypt)).toText =
      (Container.run [.upsert "b" "2", .rename "b" "a"] (.empty .argon2id)).toText ∧
    (Container.run [.upsert "a" "2"] (.empty .scrypt)).toText =
      (Json.array [Container.entryToJson "a" "2"]).print (.indented 4) := by
  intro b
  obtain ⟨-, hread, htext⟩ := canonical_text
  have hmoved : Container.run [.upsert "b" "2", .rename "b" "a"] (.empty .argon2id) =
      { entries := (∅ : Std.ExtTreeMap String String).insert "a" "2"
        derivation := .argon2id } := rfl
  obtain ⟨hsame, hlisted⟩ := htext [.upsert "a" "2"] .scrypt
  refine ⟨⟨_, rfl, ?_⟩, hsame _ .argon2id fun name text => ?_, ?_⟩
  · obtain ⟨⟨hderivation, -⟩, hagain⟩ := hread b .scrypt _ rfl
    exact ⟨hderivation, rfl, hagain .argon2id⟩
  · rw [hmoved]
    exact Iff.rfl
  · refine hlisted [("a", "2")] (List.pairwise_singleton _ _) fun name text => ?_
    have hput : Container.run [.upsert "a" "2"] (.empty .scrypt) =
        { entries := (∅ : Std.ExtTreeMap String String).insert "a" "2"
          derivation := .scrypt } := rfl
    rw [hput, Container.get_eq_ok_iff, Std.ExtTreeMap.getElem?_insert]
    by_cases hname : name = "a"
    · simp [hname, eq_comm]
    · simp [hname, Ne.symm hname]

end Lockbox
