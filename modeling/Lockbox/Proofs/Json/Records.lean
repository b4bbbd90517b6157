import Lockbox.Proofs.Json.Grammar
import Mathlib.Data.List.Nodup
import Mathlib.Data.List.Perm.Basic

namespace Lockbox.Json

/-!
# Records depend on their known fields alone

A decoder of records knows the names of its fields.  What it makes of an object depends on the
members with these names and on nothing else, and an array is read as the object that has its items
as fields, in order.

* `Named`, `Respelled` — the names of members as texts, and the same value with other escapes.
* `ReadsFields` — a decoder that succeeds exactly if the known fields tell a record.
* `readsFields_of` — every decoder that starts from the values of its fields is one.
-/

/-! ### Members by name -/

/-- The members of an object with the texts that their names stand for. -/
def Named (members : List (List TextUnit × Json)) (named : List (String × Json)) : Prop :=
  List.Forall₂ (fun member entry => TextUnit.toText? member.1 = some entry.1 ∧ member.2 = entry.2)
    members named

/-- No known name is repeated. -/
def NoneTwice (names : List String) (named : List (String × Json)) : Prop :=
  ∀ name ∈ names, named.countP (·.1 = name) ≤ 1

/-- A map all of whose values are there, one by one. -/
theorem mapM_eq_some_iff {α β : Type} {f : α → Option β} {l : List α} {results : List β} :
    l.mapM f = some results ↔ List.Forall₂ (fun x result => f x = some result) l results := by
  induction l generalizing results with
  | nil => simp [eq_comm]
  | cons x l ih =>
    rw [List.mapM_cons, List.forall₂_cons_left_iff]
    simp only [Option.bind_eq_bind, Option.pure_def, Option.bind_eq_some_iff, Option.some.injEq]
    constructor
    · rintro ⟨result, hresult, rest, hrest, rfl⟩
      exact ⟨result, rest, hresult, ih.mp hrest, rfl⟩
    · rintro ⟨result, rest, hresult, hrest, rfl⟩
      exact ⟨result, hresult, rest, ih.mpr hrest, rfl⟩

theorem namedMembers?_eq_some_iff {members : List (List TextUnit × Json)}
    {named : List (String × Json)} :
    namedMembers? members = some named ↔ Named members named := by
  have hmember : ∀ (member : List TextUnit × Json) (entry : String × Json),
      (do return (← TextUnit.toText? member.1, member.2)) = some entry ↔
        TextUnit.toText? member.1 = some entry.1 ∧ member.2 = entry.2 := by
    intro member entry
    simp only [Option.bind_eq_bind, Option.pure_def, Option.bind_eq_some_iff, Option.some.injEq,
      Prod.ext_iff]
    constructor
    · rintro ⟨name, hname, rfl, hvalue⟩
      exact ⟨hname, hvalue⟩
    · rintro ⟨hname, hvalue⟩
      exact ⟨entry.1, hname, rfl, hvalue⟩
  rw [namedMembers?, mapM_eq_some_iff, Named]
  simp only [hmember]

/-- The first of the members with a name. -/
theorem lookup_eq_head? (named : List (String × Json)) (name : String) :
    named.lookup name = (named.filter (·.1 = name)).head?.map Prod.snd := by
  induction named with
  | nil => rfl
  | cons entry named ih =>
    obtain ⟨other, value⟩ := entry
    by_cases h : other = name
    · subst h
      simp
    · have hne : (name == other) = false := by simpa using fun heq => h heq.symm
      simp [List.lookup_cons, hne, h, ih]

/-- A field is read from members that do not repeat its name. -/
theorem field?_eq_some_iff {named : List (String × Json)} {name : String} {field : Option Json} :
    field? named name = some field ↔
      named.countP (·.1 = name) ≤ 1 ∧ field = named.lookup name := by
  rw [List.countP_eq_length_filter, lookup_eq_head?, field?]
  split
  · rename_i hfilter
    simp [hfilter, @eq_comm _ _ field]
  · rename_i other value hfilter
    simp [hfilter, @eq_comm _ _ field]
  · rename_i hnil hone
    -- More than one member has the name.
    cases hfilter : named.filter (·.1 = name) with
    | nil => exact absurd hfilter hnil
    | cons entry rest =>
      cases rest with
      | nil => exact absurd hfilter (hone entry.1 entry.2)
      | cons _ _ => simp

/-- The fields of members that repeat none of the names. -/
theorem mapM_field?_eq_some_iff {names : List String} {named : List (String × Json)}
    {fields : List (Option Json)} :
    names.mapM (field? named) = some fields ↔
      NoneTwice names named ∧ fields = names.map (named.lookup ·) := by
  unfold NoneTwice
  induction names generalizing fields with
  | nil => simp [eq_comm]
  | cons name names ih =>
    rw [List.mapM_cons]
    simp only [Option.bind_eq_bind, Option.bind_eq_some_iff, Option.pure_def, Option.some.injEq,
      field?_eq_some_iff, List.forall_mem_cons, List.map_cons]
    constructor
    · rintro ⟨first, ⟨hone, rfl⟩, rest, hrest, rfl⟩
      obtain ⟨hmore, rfl⟩ := ih.mp hrest
      exact ⟨⟨hone, hmore⟩, rfl⟩
    · rintro ⟨⟨hone, hmore⟩, rfl⟩
      exact ⟨_, ⟨hone, rfl⟩, _, ih.mpr ⟨hmore, rfl⟩, rfl⟩

/-- The fields of an object. -/
theorem fields?_object_iff {names : List String} {members : List (List TextUnit × Json)}
    {fields : List (Option Json)} :
    fields? names (object members) = some fields ↔ ∃ named, Named members named ∧
      NoneTwice names named ∧ fields = names.map (named.lookup ·) := by
  rw [fields?, Option.bind_eq_bind, Option.bind_eq_some_iff]
  simp only [namedMembers?_eq_some_iff, mapM_field?_eq_some_iff]

/-- The items of an array are its fields in the order of their names. -/
theorem map_lookup_zip {names : List String} {items : List Json} (hnodup : names.Nodup)
    (hlength : items.length ≤ names.length) :
    names.map ((names.zip items).lookup ·) =
      items.map some ++ List.replicate (names.length - items.length) none := by
  induction names generalizing items with
  | nil =>
    obtain rfl := List.eq_nil_of_length_eq_zero (Nat.le_zero.mp hlength)
    rfl
  | cons name names ih =>
    obtain ⟨hname, hrest⟩ := List.nodup_cons.mp hnodup
    cases items with
    | nil => simp [List.map_const', List.replicate_succ]
    | cons item items =>
      -- The first name is none of the others, so the others do not find its item.
      have hothers : names.map (((name, item) :: names.zip items).lookup ·) =
          names.map ((names.zip items).lookup ·) := by
        apply List.map_congr_left
        intro other hother
        have hne : (other == name) = false := by
          simp only [beq_eq_false_iff_ne]
          rintro rfl
          exact hname hother
        simp [List.lookup_cons, hne]
      rw [List.zip_cons_cons, List.map_cons, hothers, ih hrest (by simpa using hlength)]
      simp

/-! ### Values that tell the same -/

/-- What a value tells as a field: a text, or a whole number of 32 bits. -/
def content (value : Json) : Option String × Option Int32 := (string? value, int32? value)

/-- The same value with other escapes in its texts and names. -/
inductive Respelled : Json → Json → Prop
  | same (value : Json) : Respelled value value
  | text {units units' : List TextUnit} (h : TextUnit.toText? units = TextUnit.toText? units') :
      Respelled (.text units) (.text units')
  | array {items items' : List Json} (h : List.Forall₂ Respelled items items') :
      Respelled (.array items) (.array items')
  | object {members members' : List (List TextUnit × Json)}
      (hnames : members.map (TextUnit.toText? ·.1) = members'.map (TextUnit.toText? ·.1))
      (hvalues : List.Forall₂ Respelled (members.map Prod.snd) (members'.map Prod.snd)) :
      Respelled (.object members) (.object members')

theorem Respelled.content_eq {value value' : Json} (h : Respelled value value') :
    value.content = value'.content := by
  cases h with
  | same => rfl
  | text h => exact Prod.ext h rfl
  | array => rfl
  | object => rfl

theorem map_content_of_respelled {values values' : List Json}
    (h : List.Forall₂ Respelled values values') : values.map content = values'.map content := by
  induction h with
  | nil => rfl
  | cons hfirst _ ih => rw [List.map_cons, List.map_cons, hfirst.content_eq, ih]

/-- A field that must be there holds this text. -/
def Tells (field : Option Json) (s : String) : Prop :=
  ∃ units, field = some (text units) ∧ TextUnit.toText? units = some s

/-- A field holds this text; if it is not there, that is the empty one. -/
def TellsIfThere (field : Option Json) (s : String) : Prop := field = none ∧ s = "" ∨ Tells field s

/-- A field holds the literal of this whole number, which is not minus zero. -/
def TellsInt32 (field : Option Json) (n : Int32) : Prop :=
  ∃ literal, field = some (number literal) ∧ IsInteger literal n.toInt ∧
    ¬(n.toInt = 0 ∧ literal.head? = some '-'.toUInt8)

theorem required?_eq_some_iff {field : Option Json} {s : String} :
    required? field = some s ↔ Tells field s := by
  unfold Tells
  cases field with
  | none => simp [required?]
  | some value => cases value <;> simp [required?, string?]

theorem optional?_eq_some_iff {field : Option Json} {s : String} :
    optional? field = some s ↔ TellsIfThere field s := by
  unfold TellsIfThere
  rw [← required?_eq_some_iff]
  cases field with
  | none => simp [optional?, required?, eq_comm]
  | some value => simp [optional?, required?]

/-- A literal is read as a number of 32 bits if it is in the range of these numbers. -/
theorem int32?_eq_some_iff {value : Json} {n : Int32} :
    int32? value = some n ↔ TellsInt32 (some value) n := by
  unfold TellsInt32
  cases value with
  | number literal =>
    have hlow : Int32.minValue.toInt ≤ n.toInt := Int32.minValue_le_toInt n
    have hhigh : n.toInt ≤ Int32.maxValue.toInt := Int32.toInt_le n
    have hread : int32? (number literal) = some n ↔ intOfLiteral? literal = some n.toInt := by
      rw [int32?, Option.bind_eq_bind, Option.bind_eq_some_iff]
      constructor
      · rintro ⟨m, hm, hn⟩
        split at hn
        · rename_i hrange
          obtain rfl := Option.some.inj hn
          rwa [Int32.toInt_ofInt_of_le hrange.1 (Int.lt_add_one_of_le hrange.2)]
        · simp at hn
      · intro hn
        exact ⟨n.toInt, hn, by rw [if_pos ⟨hlow, hhigh⟩, Int32.ofInt_toInt]⟩
    rw [hread, intOfLiteral?_eq_some_iff]
    simp
  | _ => simp [int32?]

/-- A field that tells the same holds the same text. -/
theorem Tells.congr {field field' : Option Json} {s : String}
    (h : field.map content = field'.map content) (hs : Tells field s) : Tells field' s := by
  have htext : ∀ field : Option Json, required? field = (field.map content).bind Prod.fst := by
    intro field
    cases field <;> rfl
  rw [← required?_eq_some_iff] at hs ⊢
  rwa [htext, ← h, ← htext]

theorem TellsIfThere.congr {field field' : Option Json} {s : String}
    (h : field.map content = field'.map content) (hs : TellsIfThere field s) :
    TellsIfThere field' s := by
  rcases hs with ⟨rfl, hempty⟩ | hs
  · left
    exact ⟨Option.map_eq_none_iff.mp h.symm, hempty⟩
  · exact .inr (hs.congr h)

theorem TellsInt32.congr {field field' : Option Json} {n : Int32}
    (h : field.map content = field'.map content) (hn : TellsInt32 field n) :
    TellsInt32 field' n := by
  have hread : ∀ field : Option Json, TellsInt32 field n ↔
      (field.map content).bind Prod.snd = some n := by
    intro field
    cases field with
    | none => simp [TellsInt32]
    | some value => exact int32?_eq_some_iff.symm
  rw [hread] at hn ⊢
  rwa [← h]

/-! ### Decoders -/

/-- A decoder of records with fields of these names: `Told` says which record the values of the
    fields tell, and nothing else counts. -/
structure ReadsFields {α : Type} (decode : Json → Option α) (names : List String)
    (Told : (String → Option Json) → α → Prop) : Prop where
  /-- An object is read if its names are texts, none of the known ones is repeated, and the members
      with these names tell a record. -/
  object : ∀ members r, decode (.object members) = some r ↔ ∃ named, Named members named ∧
    NoneTwice names named ∧ Told (named.lookup ·) r
  /-- An array is read if it is not too long and its items tell a record, one after the other. -/
  array : ∀ items r, decode (.array items) = some r ↔ items.length ≤ names.length ∧
    Told ((names.zip items).lookup ·) r
  /-- Nothing else is read. -/
  otherwise : ∀ value, (∀ members, value ≠ .object members) → (∀ items, value ≠ .array items) →
    decode value = none
  /-- The order of members does not count. -/
  permuted : ∀ {members members'}, members.Perm members' →
    decode (.object members) = decode (.object members')
  /-- Members with other names do not count, whatever their values are. -/
  inserted : ∀ {before after units name} value, TextUnit.toText? units = some name →
    name ∉ names → decode (.object (before ++ (units, value) :: after)) =
      decode (.object (before ++ after))
  /-- Escapes do not count. -/
  respelled : ∀ {value value'}, Respelled value value' → decode value = decode value'
  /-- An array is read as the object with its items as first fields. -/
  inOrder : ∀ {items}, items.length ≤ names.length → decode (.array items) =
    decode (.object ((names.zip items).map fun member => (TextUnit.ofText member.1, member.2)))

/-! ### The names of members -/

/-- The names of members that are permuted. -/
theorem named_of_perm {names : List String} {members members' : List (List TextUnit × Json)}
    (hperm : members.Perm members') {named : List (String × Json)} (hnamed : Named members named)
    (honce : NoneTwice names named) : ∃ named', Named members' named' ∧ NoneTwice names named' ∧
      ∀ name ∈ names, named.lookup name = named'.lookup name := by
  obtain ⟨named', hnamed', hperm'⟩ := List.perm_comp_forall₂ hperm.symm hnamed
  refine ⟨named', hnamed', ?_, ?_⟩
  · intro name hname
    rw [hperm'.countP_eq]
    exact honce name hname
  · intro name hname
    -- At most one member has the name, and a permutation of so few is none.
    have hfilter := hperm'.filter (·.1 = name)
    have hone := honce name hname
    rw [List.countP_eq_length_filter] at hone
    have heq : named'.filter (·.1 = name) = named.filter (·.1 = name) := by
      cases hcase : named.filter (·.1 = name) with
      | nil => rw [hcase] at hfilter; exact hfilter.eq_nil
      | cons entry rest =>
        cases rest with
        | nil => rw [hcase] at hfilter; exact hfilter.eq_singleton
        | cons _ _ => rw [hcase] at hone; simp at hone
    rw [lookup_eq_head?, lookup_eq_head?, heq]

/-- A member with another name than the known ones. -/
theorem lookup_cons_of_notMem {names : List String} {other : String} (hother : other ∉ names)
    (value : Json) (named : List (String × Json)) {name : String} (hname : name ∈ names) :
    ((other, value) :: named).lookup name = named.lookup name ∧
      ((other, value) :: named).countP (·.1 = name) = named.countP (·.1 = name) := by
  have hne : other ≠ name := by
    rintro rfl
    exact hother hname
  have hbeq : (name == other) = false := by simpa using hne.symm
  exact ⟨by simp [List.lookup_cons, hbeq], by simp [hne]⟩

/-- The names of members, with what the values tell. -/
def contents (named : List (String × Json)) : List (String × (Option String × Option Int32)) :=
  named.map fun entry => (entry.1, content entry.2)

/-- Members whose names and values tell the same. -/
theorem named_of_respelled {members members' : List (List TextUnit × Json)}
    (hnames : members.map (TextUnit.toText? ·.1) = members'.map (TextUnit.toText? ·.1))
    (hvalues : (members.map Prod.snd).map content = (members'.map Prod.snd).map content)
    {named : List (String × Json)} (hnamed : Named members named) :
    ∃ named', Named members' named' ∧ contents named = contents named' := by
  induction hnamed generalizing members' with
  | nil =>
    obtain rfl := List.map_eq_nil_iff.mp hnames.symm
    exact ⟨[], .nil, rfl⟩
  | @cons member entry _ _ hentry _ ih =>
    cases members' with
    | nil => simp at hnames
    | cons member' members' =>
      obtain ⟨hname, hnames⟩ := List.cons.inj hnames
      obtain ⟨hvalue, hvalues⟩ := List.cons.inj hvalues
      obtain ⟨named', hnamed', hmap⟩ := ih hnames hvalues
      have hcontent : entry.2.content = member'.2.content := hentry.2 ▸ hvalue
      refine ⟨(entry.1, member'.2) :: named', .cons ⟨hname.symm.trans hentry.1, rfl⟩ hnamed', ?_⟩
      rw [contents, List.map_cons, hcontent]
      exact congrArg _ hmap

theorem lookup_contents (named : List (String × Json)) (name : String) :
    (contents named).lookup name = (named.lookup name).map content := by
  induction named with
  | nil => rfl
  | cons entry named ih =>
    obtain ⟨other, value⟩ := entry
    rw [contents, List.map_cons, ← contents]
    by_cases h : name = other
    · subst h
      simp
    · have hne : (name == other) = false := by simpa using h
      simp [List.lookup_cons, hne, ih]

theorem countP_contents (named : List (String × Json)) (name : String) :
    (contents named).countP (·.1 = name) = named.countP (·.1 = name) := by
  rw [contents, List.countP_map]
  rfl

theorem contents_zip (names : List String) (items : List Json) :
    contents (names.zip items) = names.zip (items.map content) := by
  rw [contents, List.zip_map_right]
  rfl

/-- Names that stand beside items stand there as often as among all names, at most. -/
theorem countP_zip_le (names : List String) (items : List Json) (name : String) :
    (names.zip items).countP (·.1 = name) ≤ names.count name := by
  induction names generalizing items with
  | nil => simp
  | cons other names ih =>
    cases items with
    | nil => simp
    | cons item items =>
      have hrest := ih items
      rw [List.zip_cons_cons, List.countP_cons, List.count_cons]
      simp only [decide_eq_true_eq, beq_iff_eq]
      omega

/-! ### What does not count -/

section

variable {α : Type} {decode : Json → Option α} {names : List String}
variable {Told : (String → Option Json) → α → Prop}
variable (hobject : ∀ members r, decode (.object members) = some r ↔ ∃ named,
  Named members named ∧ NoneTwice names named ∧ Told (named.lookup ·) r)
variable (harray : ∀ items r, decode (.array items) = some r ↔ items.length ≤ names.length ∧
  Told ((names.zip items).lookup ·) r)
variable (htold : ∀ {field field' r},
  (∀ name ∈ names, (field name).map content = (field' name).map content) →
    Told field r → Told field' r)

include hobject htold

/-- Members in place of others are read as the same record, if the known ones tell the same. -/
theorem object_of_same {members members' : List (List TextUnit × Json)}
    (h : ∀ named, Named members named → NoneTwice names named → ∃ named', Named members' named' ∧
      NoneTwice names named' ∧
        ∀ name ∈ names, (named.lookup name).map content = (named'.lookup name).map content)
    {r : α} (hr : decode (.object members) = some r) : decode (.object members') = some r := by
  obtain ⟨named, hnamed, honce, htells⟩ := (hobject members r).mp hr
  obtain ⟨named', hnamed', honce', hsame⟩ := h named hnamed honce
  exact (hobject members' r).mpr ⟨named', hnamed', honce', htold hsame htells⟩

theorem object_of_perm {members members' : List (List TextUnit × Json)}
    (h : members.Perm members') : decode (.object members) = decode (.object members') := by
  have hone : ∀ {members members' : List (List TextUnit × Json)}, members.Perm members' →
      ∀ r, decode (.object members) = some r → decode (.object members') = some r := by
    intro members members' h r
    apply object_of_same hobject htold
    intro named hnamed honce
    obtain ⟨named', hnamed', honce', hlookup⟩ := named_of_perm h hnamed honce
    exact ⟨named', hnamed', honce', fun name hname => congrArg _ (hlookup name hname)⟩
  apply Option.ext
  intro r
  exact ⟨hone h r, hone h.symm r⟩

theorem object_of_insert {members : List (List TextUnit × Json)} {units : List TextUnit}
    {name : String} (value : Json) (hname : TextUnit.toText? units = some name)
    (hunknown : name ∉ names) :
    decode (.object ((units, value) :: members)) = decode (.object members) := by
  apply Option.ext
  intro r
  constructor
  · apply object_of_same hobject htold
    intro named hnamed honce
    obtain ⟨⟨other, _⟩, rest, ⟨hother, rfl⟩, hrest, rfl⟩ := List.forall₂_cons_left_iff.mp hnamed
    obtain rfl : name = other := Option.some.inj (hname.symm.trans hother)
    refine ⟨rest, hrest, ?_, ?_⟩
    · intro known hknown
      rw [← (lookup_cons_of_notMem hunknown value rest hknown).2]
      exact honce known hknown
    · intro known hknown
      rw [(lookup_cons_of_notMem hunknown value rest hknown).1]
  · apply object_of_same hobject htold
    intro named hnamed honce
    refine ⟨(name, value) :: named, .cons ⟨hname, rfl⟩ hnamed, ?_, ?_⟩
    · intro known hknown
      rw [(lookup_cons_of_notMem hunknown value named hknown).2]
      exact honce known hknown
    · intro known hknown
      rw [(lookup_cons_of_notMem hunknown value named hknown).1]

theorem object_of_respelled {members members' : List (List TextUnit × Json)}
    (hnames : members.map (TextUnit.toText? ·.1) = members'.map (TextUnit.toText? ·.1))
    (hvalues : (members.map Prod.snd).map content = (members'.map Prod.snd).map content) {r : α} :
    decode (.object members) = some r → decode (.object members') = some r := by
  apply object_of_same hobject htold
  intro named hnamed honce
  obtain ⟨named', hnamed', hcontents⟩ := named_of_respelled hnames hvalues hnamed
  refine ⟨named', hnamed', ?_, ?_⟩
  · intro name hname
    rw [← countP_contents, ← hcontents, countP_contents]
    exact honce name hname
  · intro name _
    rw [← lookup_contents, ← lookup_contents, hcontents]

omit hobject in
include harray in
theorem array_of_respelled {items items' : List Json}
    (hcontents : items.map content = items'.map content) {r : α}
    (hr : decode (.array items) = some r) : decode (.array items') = some r := by
  obtain ⟨hshort, htells⟩ := (harray items r).mp hr
  have hlength : items.length = items'.length := by
    simpa using congrArg List.length hcontents
  refine (harray items' r).mpr ⟨by omega, htold ?_ htells⟩
  intro name _
  rw [← lookup_contents, ← lookup_contents, contents_zip, contents_zip, hcontents]

omit htold in
include harray in
theorem array_eq_object (hnodup : names.Nodup) {items : List Json}
    (hlength : items.length ≤ names.length) : decode (.array items) = decode (.object
      ((names.zip items).map fun member => (TextUnit.ofText member.1, member.2))) := by
  have hzip : Named ((names.zip items).map fun member => (TextUnit.ofText member.1, member.2))
      (names.zip items) := namedMembers?_eq_some_iff.mp (namedMembers?_ofText _)
  have honce : NoneTwice names (names.zip items) := fun name _ =>
    (countP_zip_le names items name).trans (List.nodup_iff_count_le_one.mp hnodup name)
  apply Option.ext
  intro r
  rw [harray, hobject]
  constructor
  · rintro ⟨-, htells⟩
    exact ⟨_, hzip, honce, htells⟩
  · rintro ⟨named, hnamed, -, htells⟩
    rw [← namedMembers?_eq_some_iff, namedMembers?_ofText] at hnamed
    obtain rfl := Option.some.inj hnamed
    exact ⟨hlength, htells⟩

end

/-- **A decoder that starts from the values of its fields depends on nothing else.** -/
theorem readsFields_of {α : Type} {decode : Json → Option α} {names : List String}
    {Told : (String → Option Json) → α → Prop} {make : List (Option Json) → Option α}
    (hnodup : names.Nodup) (hdecode : ∀ value, decode value = (fields? names value).bind make)
    (hmake : ∀ field r, make (names.map field) = some r ↔ Told field r)
    (htold : ∀ {field field' r},
      (∀ name ∈ names, (field name).map content = (field' name).map content) →
        Told field r → Told field' r) :
    ReadsFields decode names Told := by
  have hobject : ∀ members r, decode (.object members) = some r ↔ ∃ named,
      Named members named ∧ NoneTwice names named ∧ Told (named.lookup ·) r := by
    intro members r
    rw [hdecode, Option.bind_eq_some_iff]
    simp only [fields?_object_iff]
    constructor
    · rintro ⟨_, ⟨named, hnamed, honce, rfl⟩, hr⟩
      exact ⟨named, hnamed, honce, (hmake _ r).mp hr⟩
    · rintro ⟨named, hnamed, honce, hr⟩
      exact ⟨_, ⟨named, hnamed, honce, rfl⟩, (hmake _ r).mpr hr⟩
  have harray : ∀ items r, decode (.array items) = some r ↔ items.length ≤ names.length ∧
      Told ((names.zip items).lookup ·) r := by
    intro items r
    rw [hdecode, fields?]
    split
    · rename_i hlength
      rw [← map_lookup_zip hnodup hlength, Option.bind_some, hmake]
      exact ⟨fun h => ⟨hlength, h⟩, fun h => h.2⟩
    · rename_i hlength
      exact ⟨fun h => by simp at h, fun h => absurd h.1 hlength⟩
  refine ⟨hobject, harray, ?otherwise, object_of_perm hobject htold, ?inserted, ?respelled,
    array_eq_object hobject harray hnodup⟩
  case otherwise =>
    intro value hnoObject hnoArray
    rw [hdecode]
    cases value with
    | object members => exact absurd rfl (hnoObject members)
    | array items => exact absurd rfl (hnoArray items)
    | null | bool _ | number _ | text _ => rfl
  case inserted =>
    intro before after units name value hname hunknown
    rw [object_of_perm hobject htold List.perm_middle]
    exact object_of_insert hobject htold value hname hunknown
  case respelled =>
    intro value value' h
    cases h with
    | same => rfl
    | text => rw [hdecode, hdecode]; rfl
    | array h =>
      have hcontents := map_content_of_respelled h
      apply Option.ext
      intro r
      exact ⟨array_of_respelled harray htold hcontents,
        array_of_respelled harray htold hcontents.symm⟩
    | object hnames hvalues =>
      have hcontents := map_content_of_respelled hvalues
      apply Option.ext
      intro r
      exact ⟨object_of_respelled hobject htold hnames hcontents,
        object_of_respelled hobject htold hnames.symm hcontents.symm⟩

end Lockbox.Json
