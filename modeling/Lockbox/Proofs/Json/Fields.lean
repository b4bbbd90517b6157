import Lockbox.Json.Fields
import Lockbox.Proofs.Json.Size

namespace Lockbox.Json

/-!
# Records read back

What is written as a record reads back field by field, and a whole number reads back from its
digits.

* `fields?_object` — the fields of an object that was written with just these names.
* `mem_of_field?`, `mem_namedMembers?`, `mem_tokens_object` — a field is a member of the object.
* `membersSize_le` — fields of an object take as many bytes as they are written with.
* `intOfLiteral?_literalOfInt`, `int32?_ofInt` — whole numbers.
* `readable_ofText`, `readable_ofInt`, `readable_object`, `readable_array` — what can be written.
-/

/-! ### Fields -/

/-- A map all of whose values are there. -/
theorem mapM_eq_some {α β : Type} {f : α → Option β} {g : α → β} {l : List α}
    (h : ∀ x ∈ l, f x = some (g x)) : l.mapM f = some (l.map g) := by
  induction l with
  | nil => rfl
  | cons x l ih =>
    rw [List.mapM_cons, h x (by simp), ih (fun y hy => h y (by simp [hy]))]
    rfl

/-- A field that one member is named for. -/
theorem field?_of_nodup {members : List (String × Json)} (h : (members.map Prod.fst).Nodup)
    {name : String} {value : Json} (hmem : (name, value) ∈ members) :
    field? members name = some (some value) := by
  induction members with
  | nil => simp at hmem
  | cons member members ih =>
    rw [List.map_cons, List.nodup_cons] at h
    obtain ⟨hfirst, hrest⟩ := h
    rcases List.mem_cons.mp hmem with rfl | hmem
    · -- No other member has the name.
      have hnone : members.filter (fun member => decide (member.1 = name)) = [] := by
        rw [List.filter_eq_nil_iff]
        intro other hother heq
        exact hfirst (List.mem_map.mpr ⟨other, hother, by simpa using heq⟩)
      simp [field?, hnone]
    · have hne : member.1 ≠ name := by
        rintro rfl
        exact hfirst (List.mem_map.mpr ⟨_, hmem, rfl⟩)
      have := ih hrest hmem
      simpa [field?, hne] using this

/-- The members of an object whose names are texts. -/
theorem namedMembers?_ofText (members : List (String × Json)) :
    namedMembers? (members.map fun member => (TextUnit.ofText member.1, member.2)) =
      some members := by
  rw [namedMembers?, List.mapM_map]
  have hmap := mapM_eq_some (l := members) (g := id)
    (f := fun member => do return (← TextUnit.toText? (TextUnit.ofText member.1), member.2))
    fun member _ => by simp [TextUnit.toText?_ofText]
  rwa [List.map_id] at hmap

/-- An object that was written with just these names has all of the fields. -/
theorem fields?_object {members : List (String × Json)} (h : (members.map Prod.fst).Nodup) :
    fields? (members.map Prod.fst)
        (object (members.map fun member => (TextUnit.ofText member.1, member.2))) =
      some (members.map fun member => some member.2) := by
  rw [fields?, namedMembers?_ofText]
  show (members.map Prod.fst).mapM (field? members) = _
  rw [List.mapM_map]
  exact mapM_eq_some fun member hmem => field?_of_nodup h hmem

@[simp] theorem string?_ofText (s : String) : string? (ofText s) = some s := by
  simp [string?, ofText, TextUnit.toText?_ofText]

@[simp] theorem required?_ofText (s : String) : required? (some (ofText s)) = some s := by
  simp [required?]

@[simp] theorem optional?_ofText (s : String) : optional? (some (ofText s)) = some s := by
  simp [optional?]

/-! ### Where fields come from -/

/-- A field that has a value is a member. -/
theorem mem_of_field? {members : List (String × Json)} {name : String} {value : Json}
    (h : field? members name = some (some value)) : (name, value) ∈ members := by
  unfold field? at h
  split at h
  · simp at h
  · rename_i other found hfilter
    simp only [Option.some.injEq] at h
    have hmem : (other, found) ∈ members.filter (fun member => decide (member.1 = name)) := by
      rw [hfilter]
      exact List.mem_singleton_self _
    rw [List.mem_filter] at hmem
    have hname : other = name := by simpa using hmem.2
    rw [← h, ← hname]
    exact hmem.1
  · simp at h

/-- A field that is not there is no member. -/
theorem notMem_of_field? {members : List (String × Json)} {name : String}
    (h : field? members name = some none) (value : Json) : (name, value) ∉ members := by
  unfold field? at h
  split at h
  · rename_i hfilter
    intro hmem
    rw [List.filter_eq_nil_iff] at hfilter
    exact hfilter (name, value) hmem (by simp)
  · simp at h
  · simp at h

/-- The members of an object and their names as texts. -/
theorem mem_namedMembers? {members : List (List TextUnit × Json)} {named : List (String × Json)}
    (h : namedMembers? members = some named) {name : String} {value : Json} :
    (name, value) ∈ named ↔
      ∃ units, (units, value) ∈ members ∧ TextUnit.toText? units = some name := by
  unfold namedMembers? at h
  -- Every member has a name that is a text, or the whole object has no named members.
  induction members generalizing named with
  | nil =>
    obtain rfl : [] = named := by simpa using h
    simp
  | cons member members ih =>
    rw [List.mapM_cons] at h
    obtain ⟨text, htext⟩ : ∃ text, TextUnit.toText? member.1 = some text := by
      cases htext : TextUnit.toText? member.1 with
      | none => simp [htext] at h
      | some text => exact ⟨text, rfl⟩
    simp only [htext, Option.pure_def, Option.bind_eq_bind, Option.bind_some,
      Option.bind_eq_some_iff, Option.some.injEq] at h
    obtain ⟨rest, hrest, rfl⟩ := h
    constructor
    · intro hmem
      rcases List.mem_cons.mp hmem with heq | hmem
      · obtain ⟨rfl, rfl⟩ := Prod.mk.inj heq
        exact ⟨member.1, List.mem_cons_self, htext⟩
      · obtain ⟨units, hunits, hname⟩ := (ih hrest).mp hmem
        exact ⟨units, List.mem_cons_of_mem _ hunits, hname⟩
    · rintro ⟨units, hmem, hname⟩
      rcases List.mem_cons.mp hmem with rfl | hmem
      · obtain rfl : text = name := Option.some.inj (htext.symm.trans hname)
        exact List.mem_cons_self
      · exact List.mem_cons_of_mem _ ((ih hrest).mpr ⟨units, hmem, hname⟩)

/-- The tokens of an object have its names and all tokens of its values. -/
theorem mem_tokens_object {members : List (List TextUnit × Json)} {units : List TextUnit}
    {value : Json} (h : (units, value) ∈ members) :
    .text units ∈ (object members).tokens ∧ ∀ t ∈ value.tokens, t ∈ (object members).tokens := by
  have hmore : ∀ members : List (List TextUnit × Json), (units, value) ∈ members →
      .text units ∈ moreMembers members ∧ ∀ t ∈ value.tokens, t ∈ moreMembers members := by
    intro members h
    induction members with
    | nil => simp at h
    | cons member members ih =>
      rw [moreMembers]
      rcases List.mem_cons.mp h with rfl | h
      · exact ⟨by simp, fun t ht => by simp [ht]⟩
      · obtain ⟨hname, hvalue⟩ := ih h
        exact ⟨by simp [hname], fun t ht => by simp [hvalue t ht]⟩
  -- The first member has no comma before it, the others are as in the rest of an object.
  cases members with
  | nil => simp at h
  | cons member members =>
    rw [tokens]
    rcases List.mem_cons.mp h with rfl | h
    · exact ⟨by simp, fun t ht => by simp [ht]⟩
    · obtain ⟨hname, hvalue⟩ := hmore members h
      exact ⟨by simp [hname], fun t ht => by simp [hvalue t ht]⟩

/-- Members with different names take as many bytes as they take when they are written, at least. -/
theorem membersSize_le {members : List (List TextUnit × Json)} {wanted : List (String × Json)}
    (hread : ∀ member ∈ members, ∀ u ∈ member.1, u.Readable)
    (hnodup : (wanted.map Prod.fst).Nodup)
    (hmem : ∀ want ∈ wanted, ∃ units, (units, want.2) ∈ members ∧
      TextUnit.toText? units = some want.1) :
    membersSize (wanted.map fun want => (TextUnit.ofText want.1, want.2)) ≤
      membersSize members := by
  induction wanted generalizing members with
  | nil => exact Nat.zero_le _
  | cons want wanted ih =>
    rw [List.map_cons, List.nodup_cons] at hnodup
    obtain ⟨units, hunits, hname⟩ := hmem want List.mem_cons_self
    obtain ⟨before, after, rfl⟩ := List.append_of_mem hunits
    -- The others are among the members around this one.
    have hothers : ∀ other ∈ wanted, ∃ units, (units, other.2) ∈ before ++ after ∧
        TextUnit.toText? units = some other.1 := by
      intro other hother
      obtain ⟨found, hfound, htext⟩ := hmem other (List.mem_cons_of_mem _ hother)
      have hne : other.1 ≠ want.1 := by
        intro heq
        exact hnodup.1 (heq ▸ List.mem_map_of_mem hother)
      rw [List.mem_append, List.mem_cons] at hfound
      rcases hfound with hfound | heq | hfound
      · exact ⟨found, List.mem_append_left _ hfound, htext⟩
      · obtain ⟨rfl, -⟩ := Prod.mk.inj heq
        rw [hname, Option.some.injEq] at htext
        exact absurd htext.symm hne
      · exact ⟨found, List.mem_append_right _ hfound, htext⟩
    have hreadOthers : ∀ member ∈ before ++ after, ∀ u ∈ member.1, u.Readable := by
      intro member hmember
      apply hread
      rcases List.mem_append.mp hmember with h | h
      · exact List.mem_append_left _ h
      · exact List.mem_append_right _ (List.mem_cons_of_mem _ h)
    have hrest := ih hreadOthers hnodup.2 hothers
    have hsize : TextUnit.size (TextUnit.ofText want.1) ≤ TextUnit.size units :=
      TextUnit.size_ofText_le (hread _ hunits) hname
    rw [membersSize_append] at hrest
    rw [membersSize_append, List.map_cons, membersSize, membersSize]
    omega

/-! ### Whole numbers -/

/-- The digits of a number, as bytes. -/
def digitsOf (n : Nat) : Bytes := (Nat.toDigits 10 n).map Char.toUInt8

theorem digitsOf_of_lt {n : Nat} (h : n < 10) : digitsOf n = [n.digitChar.toUInt8] := by
  rw [digitsOf, Nat.toDigits_of_lt_base h]
  rfl

theorem digitsOf_of_le {n : Nat} (h : 10 ≤ n) :
    digitsOf n = digitsOf (n / 10) ++ [(n % 10).digitChar.toUInt8] := by
  rw [digitsOf, Nat.toDigits_of_base_le (by decide) h]
  simp [digitsOf]

/-- The first digit of a number is not zero, unless it is the only one. -/
theorem ofLiteral?_digitsOf (before : Bytes) {n : Nat} (hn : 0 < n)
    (h : ∀ d : Fin 10, 0 < d.val →
      NumberPhase.ofLiteral? (before ++ [d.val.digitChar.toUInt8]) = some .whole) :
    NumberPhase.ofLiteral? (before ++ digitsOf n) = some .whole := by
  -- All digits but the last are those of a tenth of the number.
  induction n using Nat.strongRecOn with
  | _ n ih =>
    by_cases hlt : n < 10
    · rw [digitsOf_of_lt hlt]
      exact h ⟨n, hlt⟩ hn
    · rw [digitsOf_of_le (by omega), ← List.append_assoc]
      have hdigit : ∀ d : Fin 10,
          NumberPhase.next? .whole d.val.digitChar.toUInt8 = some .whole := by decide
      exact NumberPhase.ofLiteral?_snoc (ih (n / 10) (by omega) (by omega))
        (hdigit ⟨n % 10, Nat.mod_lt _ (by decide)⟩)

theorem literalOfInt_eq (n : Int) :
    literalOfInt n = if n < 0 then '-'.toUInt8 :: digitsOf n.natAbs else digitsOf n.natAbs := rfl

/-- The literal of a whole number is a number. -/
theorem readable_literalOfInt (n : Int) : (Token.number (literalOfInt n)).Readable := by
  rw [literalOfInt_eq]
  split
  · refine ⟨.whole, ?_, rfl⟩
    exact ofLiteral?_digitsOf ['-'.toUInt8] (by omega) (by decide)
  -- Zero is the only number that starts with a zero.
  · by_cases hzero : n.natAbs = 0
    · rw [hzero]
      exact ⟨.zero, rfl, rfl⟩
    · refine ⟨.whole, ?_, rfl⟩
      exact ofLiteral?_digitsOf [] (by omega) (by decide)

/-- The digits of a number are digits, and give back the number. -/
theorem all_isDigit_digitsOf (n : Nat) : (digitsOf n).all isDigit = true ∧
    (digitsOf n).foldl (fun n b => n * 10 + (b.toNat - '0'.toNat)) 0 = n := by
  have hdigit : ∀ d : Fin 10, isDigit d.val.digitChar.toUInt8 = true ∧
      d.val.digitChar.toUInt8.toNat - '0'.toNat = d.val := by decide
  -- As before, by the last digit and those of a tenth.
  induction n using Nat.strongRecOn with
  | _ n ih =>
    by_cases hlt : n < 10
    · rw [digitsOf_of_lt hlt]
      obtain ⟨hall, hvalue⟩ := hdigit ⟨n, hlt⟩
      refine ⟨by simp [hall], ?_⟩
      rw [List.foldl_cons, List.foldl_nil, hvalue]
      show 0 * 10 + n = n
      omega
    · obtain ⟨hall, hvalue⟩ := ih (n / 10) (by omega)
      obtain ⟨hlast, hlastValue⟩ := hdigit ⟨n % 10, Nat.mod_lt _ (by decide)⟩
      rw [digitsOf_of_le (by omega)]
      refine ⟨by simp [hall, hlast], ?_⟩
      rw [List.foldl_append, hvalue, List.foldl_cons, List.foldl_nil, hlastValue]
      simp only
      omega

theorem natOfDigits?_digitsOf (n : Nat) : natOfDigits? (digitsOf n) = some n := by
  obtain ⟨hall, hvalue⟩ := all_isDigit_digitsOf n
  have hne : digitsOf n ≠ [] := by simp [digitsOf]
  rw [natOfDigits?, if_pos ⟨hne, hall⟩, hvalue]

/-- A whole number reads back from its literal. -/
theorem intOfLiteral?_literalOfInt (n : Int) : intOfLiteral? (literalOfInt n) = some n := by
  rw [literalOfInt_eq]
  split
  · rename_i hneg
    rw [intOfLiteral?, if_pos rfl, natOfDigits?_digitsOf]
    show (if n.natAbs = 0 then none else some (-(n.natAbs : Int))) = some n
    rw [if_neg (by omega), Option.some.injEq]
    omega
  · rename_i hpos
    obtain ⟨b, rest, hdigits⟩ := List.exists_cons_of_ne_nil (l := digitsOf n.natAbs)
      (by simp [digitsOf])
    -- The first byte is a digit, so it is no sign.
    have hb : b ≠ '-'.toUInt8 := by
      rintro rfl
      have hall := (all_isDigit_digitsOf n.natAbs).1
      rw [hdigits, List.all_cons, Bool.and_eq_true] at hall
      exact absurd hall.1 (by decide)
    rw [hdigits, intOfLiteral?, if_neg hb, ← hdigits, natOfDigits?_digitsOf]
    show some ((n.natAbs : Nat) : Int) = some n
    rw [Option.some.injEq]
    omega

/-- A whole number of 32 bits reads back. -/
@[simp] theorem int32?_ofInt (n : Int32) : int32? (ofInt n.toInt) = some n := by
  have hlow : Int32.minValue.toInt ≤ n.toInt := Int32.minValue_le_toInt n
  have hhigh : n.toInt ≤ Int32.maxValue.toInt := Int32.toInt_le n
  rw [ofInt, int32?, intOfLiteral?_literalOfInt]
  show (if _ then some (Int32.ofInt n.toInt) else none) = _
  rw [if_pos ⟨hlow, hhigh⟩, Int32.ofInt_toInt]

/-! ### What can be written -/

/-- A text is written readably. -/
theorem readable_ofText (s : String) : (ofText s).Readable := by
  intro t ht
  obtain rfl := List.mem_singleton.mp ht
  exact TextUnit.readable_ofText s

/-- So is a whole number. -/
theorem readable_ofInt (n : Int) : (ofInt n).Readable := by
  intro t ht
  obtain rfl := List.mem_singleton.mp ht
  exact readable_literalOfInt n

/-- An array is written readably if its items are. -/
theorem readable_array {items : List Json} (h : ∀ item ∈ items, item.Readable) :
    (array items).Readable := by
  -- The items after the first one, with their commas.
  have hmore : ∀ items : List Json, (∀ item ∈ items, item.Readable) →
      ∀ t ∈ moreItems items, t.Readable := by
    intro items h
    induction items with
    | nil => simp [moreItems]
    | cons item items ih =>
      intro t ht
      rw [moreItems, List.mem_cons, List.mem_append] at ht
      rcases ht with rfl | ht | ht
      · trivial
      · exact h item (by simp) t ht
      · exact ih (fun other hother => h other (by simp [hother])) t ht
  intro t ht
  rw [tokens_array, List.mem_cons, List.mem_append, List.mem_singleton] at ht
  rcases ht with rfl | ht | rfl
  · trivial
  · cases items with
    | nil => simp [joinItems] at ht
    | cons item items =>
      rw [joinItems, List.mem_append] at ht
      rcases ht with ht | ht
      · exact h item (by simp) t ht
      · exact hmore items (fun other hother => h other (by simp [hother])) t ht
  · trivial

/-- An object is written readably if the values of its members are. -/
theorem readable_object {members : List (String × Json)}
    (h : ∀ member ∈ members, member.2.Readable) :
    (object (members.map fun member => (TextUnit.ofText member.1, member.2))).Readable := by
  have hname : ∀ name : String, (Token.text (TextUnit.ofText name)).Readable :=
    fun name => TextUnit.readable_ofText name
  -- The members after the first one, with their commas.
  have hmore : ∀ members : List (String × Json), (∀ member ∈ members, member.2.Readable) →
      ∀ t ∈ moreMembers (members.map fun member => (TextUnit.ofText member.1, member.2)),
        t.Readable := by
    intro members h
    induction members with
    | nil => simp [moreMembers]
    | cons member members ih =>
      intro t ht
      rw [List.map_cons, moreMembers, List.mem_cons, List.mem_cons, List.mem_cons,
        List.mem_append] at ht
      rcases ht with rfl | rfl | rfl | ht | ht
      · trivial
      · exact hname member.1
      · trivial
      · exact h member (by simp) t ht
      · exact ih (fun other hother => h other (by simp [hother])) t ht
  intro t ht
  rw [tokens_object, List.mem_cons, List.mem_append, List.mem_singleton] at ht
  rcases ht with rfl | ht | rfl
  · trivial
  · cases members with
    | nil => simp [joinMembers] at ht
    | cons member members =>
      rw [List.map_cons, joinMembers, List.mem_cons, List.mem_cons, List.mem_append] at ht
      rcases ht with rfl | rfl | ht | ht
      · exact hname member.1
      · trivial
      · exact h member (by simp) t ht
      · exact hmore members (fun other hother => h other (by simp [hother])) t ht
  · trivial

end Lockbox.Json
