import Lockbox.Proofs.Credentials.Record

namespace Lockbox

/-!
# Patterns

A pattern matches a whole text, part by part from the left.  A part that can take more or fewer
characters tries to take most of them first, and takes fewer only if the parts after it find no
match otherwise.  What is captured comes from the first way that works.

* `Part`, `Pattern` — what patterns are made of.
* `Pattern.capture?` — what is captured from a text.
* `captureOnto_literal_eq_some`, `captureOnto_many_eq_some` — what parts take where there is a
  match.
* `captureOnto_literal_append`, `captureOnto_many_ne_none` — where there is one.
* `around` — the pattern of a text between two fixed ones, after a name.
* `exists_capture?_of_stands`, `holds_of_capture?` — where it captures something, and what.
-/

/-- A part of a pattern. -/
inductive Part
  /-- These characters. -/
  | literal (own : List Char)
  /-- At least so many characters of a class, which are captured or not. -/
  | many (least : Nat) (accepts : Char → Bool) (captured : Bool)

/-- The parts of a pattern, from left to right. -/
abbrev Pattern := List Part

namespace Pattern

/-- What is captured if the parts take the whole text, and so much was captured before. -/
def captureOnto (found : List Char) : Pattern → List Char → Option (List Char)
  | [], text => if text = [] then some found else none
  | .literal own :: parts, text =>
    if own.isPrefixOf text then captureOnto found parts (text.drop own.length) else none
  | .many least accepts captured :: parts, text =>
    (List.range ((text.takeWhile accepts).length + 1)).reverse.findSome? fun size =>
      if least ≤ size then
        captureOnto (if captured then text.take size else found) parts (text.drop size)
      else none

/-- What is captured if the pattern takes the whole text. -/
def capture? (pattern : Pattern) (text : List Char) : Option (List Char) :=
  captureOnto [] pattern text

variable {found text run rest result own : List Char} {parts : Pattern} {least : Nat}
  {accepts : Char → Bool} {captured : Bool}

/-! ### Fixed characters -/

/-- Fixed characters take just themselves. -/
@[simp] theorem captureOnto_literal_append :
    captureOnto found (.literal own :: parts) (own ++ rest) = captureOnto found parts rest := by
  rw [captureOnto, if_pos (List.isPrefixOf_iff_prefix.mpr (List.prefix_append own rest)),
    List.drop_left]

/-- What fixed characters take where there is a match. -/
theorem captureOnto_literal_eq_some
    (h : captureOnto found (.literal own :: parts) text = some result) :
    ∃ rest, text = own ++ rest ∧ captureOnto found parts rest = some result := by
  rw [captureOnto] at h
  split at h
  · rename_i hstart
    obtain ⟨rest, rfl⟩ := List.isPrefixOf_iff_prefix.mp hstart
    rw [List.drop_left] at h
    exact ⟨rest, rfl, h⟩
  · cases h

/-! ### Characters of a class -/

/-- Is this a way to take at least so many characters of a class off a text? -/
structure Takes (least : Nat) (accepts : Char → Bool) (text run rest : List Char) : Prop where
  /-- The text is what is taken and what is left. -/
  text_eq : text = run ++ rest
  /-- It is enough. -/
  least_le : least ≤ run.length
  /-- It is of the class. -/
  accepted : ∀ c ∈ run, accepts c = true

/-- No way takes more than the longest front that is of the class. -/
theorem Takes.length_le (h : Takes least accepts text run rest) :
    run.length ≤ (text.takeWhile accepts).length := by
  rw [h.text_eq, List.takeWhile_append_of_pos h.accepted, List.length_append]
  exact Nat.le_add_right _ _

/-- What is taken is all that comes before what is left. -/
theorem Takes.take_drop (h : Takes least accepts text run rest) :
    text.take run.length = run ∧ text.drop run.length = rest := by
  rw [h.text_eq, List.take_left, List.drop_left]
  exact ⟨rfl, rfl⟩

/-- Any number up to that can be taken. -/
theorem takes_take {size : Nat} (hleast : least ≤ size)
    (hsize : size ≤ (text.takeWhile accepts).length) :
    Takes least accepts text (text.take size) (text.drop size) := by
  have hfront := (List.takeWhile_prefix (l := text) accepts).length_le
  refine ⟨(List.take_append_drop size text).symm, ?_, fun c hc => ?_⟩
  · rw [List.length_take]
    omega
  · have hstart : text.take size <+: text.takeWhile accepts := by
      apply List.prefix_of_prefix_length_le (List.take_prefix size text)
        (List.takeWhile_prefix accepts)
      rw [List.length_take]
      omega
    exact List.mem_takeWhile_imp (hstart.subset hc)

/-- Characters of a class can be taken in any way that lets the other parts match. -/
theorem captureOnto_many_ne_none (htakes : Takes least accepts text run rest)
    (h : captureOnto (if captured then run else found) parts rest ≠ none) :
    captureOnto found (.many least accepts captured :: parts) text ≠ none := by
  intro hnone
  rw [captureOnto, List.findSome?_eq_none_iff] at hnone
  have hrun := hnone run.length (by
    rw [List.mem_reverse, List.mem_range]
    exact Nat.lt_succ_of_le htakes.length_le)
  rw [if_pos htakes.least_le, htakes.take_drop.1, htakes.take_drop.2] at hrun
  exact h hrun

/-- The largest number is found for which there is a result. -/
theorem findSome?_descending {α : Type} {f : Nat → Option α} {most : Nat} {result : α}
    (h : (List.range (most + 1)).reverse.findSome? f = some result) :
    ∃ size ≤ most, f size = some result ∧ ∀ larger ≤ most, size < larger → f larger = none := by
  obtain ⟨before, size, after, hsizes, hsize, hbefore⟩ := List.findSome?_eq_some_iff.mp h
  have hmem : ∀ other, other ≤ most ↔ other ∈ before ++ size :: after := by
    intro other
    rw [← hsizes, List.mem_reverse, List.mem_range, Nat.lt_succ_iff]
  have hdescends : (before ++ size :: after).Pairwise (· > ·) := by
    rw [← hsizes, List.pairwise_reverse]
    exact List.pairwise_lt_range
  rw [List.pairwise_append, List.pairwise_cons] at hdescends
  refine ⟨size, (hmem size).mpr (by simp), hsize, fun larger hlarger hlt => ?_⟩
  rcases List.mem_append.mp ((hmem larger).mp hlarger) with htried | hlater
  · exact hbefore larger htried
  · -- What has not been tried is no larger.
    rcases List.mem_cons.mp hlater with rfl | hafter
    · exact absurd hlt (Nat.lt_irrefl _)
    · exact absurd (hdescends.2.1.1 _ hafter) (Nat.lt_asymm hlt)

/-- What characters of a class take where there is a match: as many as the other parts allow. -/
theorem captureOnto_many_eq_some
    (h : captureOnto found (.many least accepts captured :: parts) text = some result) :
    ∃ run rest, Takes least accepts text run rest ∧
      captureOnto (if captured then run else found) parts rest = some result ∧
      ∀ more less, Takes least accepts text more less → run.length < more.length →
        captureOnto (if captured then more else found) parts less = none := by
  obtain ⟨size, hsize, hresult, hlarger⟩ := findSome?_descending h
  split at hresult
  · rename_i hleast
    have htakes := takes_take hleast hsize
    refine ⟨_, _, htakes, hresult, fun more less hmore hlonger => ?_⟩
    have hfront := (List.takeWhile_prefix (l := text) accepts).length_le
    rw [List.length_take] at hlonger
    have hnone := hlarger more.length hmore.length_le (by omega)
    rwa [if_pos hmore.least_le, hmore.take_drop.1, hmore.take_drop.2] at hnone
  · cases hresult

/-! ### A text between two others -/

/-- Is this any character but a line feed? -/
def inLine (c : Char) : Bool := c ≠ '\n'

/-- The pattern for a name and, at least one character after it, a text between two fixed ones. -/
def around (name opener : List Char) (accepts : Char → Bool) (closer : List Char) : Pattern :=
  [.many 0 inLine false, .literal name, .many 1 inLine false, .literal opener,
    .many 1 accepts true, .literal closer, .many 0 inLine false]

variable {name opener closer line before : List Char}

/-- Does the text stand here in a line between the two others? -/
structure Stands (opener : List Char) (accepts : Char → Bool) (closer line before text rest :
    List Char) : Prop where
  /-- What is before it and after it. -/
  line_eq : line = before ++ (opener ++ (text ++ (closer ++ rest)))
  /-- There is something of it. -/
  ne_nil : text ≠ []
  /-- It is of the class. -/
  accepted : ∀ c ∈ text, accepts c = true

/-- Does no text stand further right in the line than here? -/
def IsLast (opener : List Char) (accepts : Char → Bool) (closer line before : List Char) : Prop :=
  ∀ front inner back, Stands opener accepts closer line front inner back →
    front.length ≤ before.length

/-- Is no text longer that stands here in the line? -/
def IsLongest (opener : List Char) (accepts : Char → Bool) (closer line before text : List Char) :
    Prop :=
  ∀ inner back, Stands opener accepts closer line before inner back → inner.length ≤ text.length

/-- Is it the longest text at the last place where one stands, and is the name before it? -/
def Holds (name opener : List Char) (accepts : Char → Bool) (closer line text : List Char) : Prop :=
  ∃ before rest, Record.HasName name before ∧ Stands opener accepts closer line before text rest ∧
    IsLast opener accepts closer line before ∧ IsLongest opener accepts closer line before text

/-- What comes first in a line does not matter to what stands after it. -/
theorem stands_append_iff {front : List Char} :
    Stands opener accepts closer (front ++ line) (front ++ before) text rest ↔
      Stands opener accepts closer line before text rest := by
  constructor
  · rintro ⟨hline, hne, haccepted⟩
    rw [List.append_assoc] at hline
    exact ⟨List.append_cancel_left hline, hne, haccepted⟩
  · rintro ⟨rfl, hne, haccepted⟩
    exact ⟨(List.append_assoc _ _ _).symm, hne, haccepted⟩

/-! ### Where there is a match -/

/-- The rest of a line is taken whatever it is. -/
theorem captureOnto_rest_ne_none (hfeed : '\n' ∉ rest) :
    captureOnto text [.many 0 inLine false] rest ≠ none := by
  have htakes : Takes 0 inLine rest rest [] :=
    ⟨(List.append_nil rest).symm, Nat.zero_le _, fun c hc =>
      decide_eq_true fun heq => hfeed (heq ▸ hc)⟩
  exact captureOnto_many_ne_none htakes (by simp [captureOnto])

/-- Where a text stands, the pattern matches from the place on. -/
theorem captureOnto_of_stands (hfeed : '\n' ∉ line) (found : List Char)
    (h : Stands opener accepts closer line before text rest) :
    captureOnto found
      [.literal opener, .many 1 accepts true, .literal closer, .many 0 inLine false]
      (opener ++ (text ++ (closer ++ rest))) ≠ none := by
  have htakes : Takes 1 accepts (text ++ (closer ++ rest)) text (closer ++ rest) :=
    ⟨rfl, List.length_pos_iff.mpr h.ne_nil, h.accepted⟩
  rw [captureOnto_literal_append]
  apply captureOnto_many_ne_none htakes
  rw [captureOnto_literal_append]
  apply captureOnto_rest_ne_none
  intro hmem
  apply hfeed
  rw [h.line_eq]
  simp [hmem]

/-- Where a text stands after the name, something is captured. -/
theorem exists_capture?_of_stands (hfeed : '\n' ∉ line) (hname : Record.HasName name before)
    (hstands : Stands opener accepts closer line before text rest) :
    ∃ found, (around name opener accepts closer).capture? line = some found := by
  obtain ⟨front, gap, rfl, hgap⟩ := hname
  have hinLine : ∀ c ∈ line, inLine c = true :=
    fun c hc => decide_eq_true fun heq => hfeed (heq ▸ hc)
  have hline := hstands.line_eq
  rw [List.append_assoc, List.append_assoc] at hline
  rw [hline] at hinLine
  have hfront : Takes 0 inLine line front
      (name ++ (gap ++ (opener ++ (text ++ (closer ++ rest))))) :=
    ⟨hline, Nat.zero_le _, fun c hc => hinLine c (List.mem_append_left _ hc)⟩
  have hmiddle : Takes 1 inLine (gap ++ (opener ++ (text ++ (closer ++ rest)))) gap
      (opener ++ (text ++ (closer ++ rest))) :=
    ⟨rfl, List.length_pos_iff.mpr hgap, fun c hc => hinLine c (by simp [hc])⟩
  apply Option.ne_none_iff_exists'.mp
  apply captureOnto_many_ne_none hfront
  rw [captureOnto_literal_append]
  exact captureOnto_many_ne_none hmiddle (captureOnto_of_stands hfeed _ hstands)

/-! ### What is captured -/

/-- Taking the rest of a line leaves what was captured before. -/
theorem eq_of_captureOnto_rest (h : captureOnto text [.many 0 inLine false] rest = some result) :
    text = result := by
  obtain ⟨_, less, -, hend, -⟩ := captureOnto_many_eq_some h
  rw [if_neg Bool.false_ne_true, captureOnto] at hend
  split at hend
  · exact Option.some.inj hend
  · cases hend

/-- From its place on, the longest text is captured. -/
theorem stands_of_captureOnto_opener (hfeed : '\n' ∉ line)
    (h : captureOnto found
      [.literal opener, .many 1 accepts true, .literal closer, .many 0 inLine false] line =
        some text) :
    ∃ rest, Stands opener accepts closer line [] text rest ∧
      IsLongest opener accepts closer line [] text := by
  obtain ⟨started, rfl, hstarted⟩ := captureOnto_literal_eq_some h
  obtain ⟨run, closed, hrun, hclosed, hlongest⟩ := captureOnto_many_eq_some hstarted
  obtain ⟨rest, rfl, hrest⟩ := captureOnto_literal_eq_some hclosed
  obtain rfl : run = text := eq_of_captureOnto_rest hrest
  refine ⟨rest, ⟨by rw [hrun.text_eq]; rfl, List.length_pos_iff.mp hrun.least_le, hrun.accepted⟩,
    fun inner back hstands => ?_⟩
  by_contra hlonger
  -- A longer text would have been taken.
  have htakes : Takes 1 accepts started inner (closer ++ back) :=
    ⟨List.append_cancel_left hstands.line_eq, List.length_pos_iff.mpr hstands.ne_nil,
      hstands.accepted⟩
  have hnone := hlongest _ _ htakes (Nat.lt_of_not_le hlonger)
  rw [captureOnto_literal_append] at hnone
  refine captureOnto_rest_ne_none (fun hmem => hfeed ?_) hnone
  rw [hstands.line_eq]
  simp [hmem]

/-- After the name, the last place is found where a text stands. -/
theorem stands_of_captureOnto_gap (hfeed : '\n' ∉ line)
    (h : captureOnto found [.many 1 inLine false, .literal opener, .many 1 accepts true,
      .literal closer, .many 0 inLine false] line = some text) :
    ∃ gap rest, gap ≠ [] ∧ Stands opener accepts closer line gap text rest ∧
      IsLast opener accepts closer line gap ∧ IsLongest opener accepts closer line gap text := by
  obtain ⟨gap, opened, hgap, hopened, hlast⟩ := captureOnto_many_eq_some h
  obtain rfl := hgap.text_eq
  obtain ⟨rest, hstands, hlongest⟩ :=
    stands_of_captureOnto_opener (fun hmem => hfeed (List.mem_append_right _ hmem)) hopened
  have hshift : ∀ inner back, Stands opener accepts closer (gap ++ opened) gap inner back ↔
      Stands opener accepts closer opened [] inner back := by
    intro inner back
    have hnothing : Stands opener accepts closer (gap ++ opened) (gap ++ []) inner back ↔
        Stands opener accepts closer opened [] inner back := stands_append_iff
    rwa [List.append_nil] at hnothing
  refine ⟨gap, rest, List.length_pos_iff.mp hgap.least_le, (hshift _ _).mpr hstands, ?_,
    fun inner back hother => hlongest inner back ((hshift _ _).mp hother)⟩
  intro front inner back hother
  by_contra hfurther
  have hlonger := Nat.lt_of_not_le hfurther
  -- A place further right would have been taken.
  have htakes : Takes 1 inLine (gap ++ opened) front (opener ++ (inner ++ (closer ++ back))) := by
    refine ⟨hother.line_eq, Nat.one_le_of_lt hlonger, fun c hc => decide_eq_true ?_⟩
    rintro rfl
    rw [hother.line_eq] at hfeed
    exact hfeed (List.mem_append_left _ hc)
  exact captureOnto_of_stands hfeed _ hother (hlast _ _ htakes hlonger)

/-- **What is captured is what the line holds.** -/
theorem holds_of_capture? (hfeed : '\n' ∉ line)
    (h : (around name opener accepts closer).capture? line = some text) :
    Holds name opener accepts closer line text := by
  obtain ⟨front, named, hfront, hnamed, -⟩ := captureOnto_many_eq_some h
  obtain ⟨gapped, rfl, hgapped⟩ := captureOnto_literal_eq_some hnamed
  obtain rfl : line = front ++ name ++ gapped := by rw [hfront.text_eq, List.append_assoc]
  obtain ⟨gap, rest, hgap, hstands, hlast, hlongest⟩ :=
    stands_of_captureOnto_gap (fun hmem => hfeed (List.mem_append_right _ hmem)) hgapped
  refine ⟨front ++ name ++ gap, rest, ⟨front, gap, rfl, hgap⟩, stands_append_iff.mpr hstands, ?_,
    fun inner back hother => hlongest inner back (stands_append_iff.mp hother)⟩
  intro other inner back hother
  by_contra hfurther
  -- What is further right than a place after the name is after the name, too.
  have hlonger := Nat.lt_of_not_le hfurther
  rw [List.length_append] at hlonger
  obtain ⟨more, rfl⟩ : front ++ name <+: other :=
    List.prefix_of_prefix_length_le (List.prefix_append _ _) ⟨_, hother.line_eq.symm⟩ (by omega)
  have hle := hlast more inner back (stands_append_iff.mp hother)
  simp only [List.length_append] at hlonger
  omega

end Pattern

end Lockbox
