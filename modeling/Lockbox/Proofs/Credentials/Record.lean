import Lockbox.Credentials.Record
import Mathlib.Data.List.Infix
import Mathlib.Data.List.TakeWhile

namespace Lockbox.Record

/-!
# What a record reads as

A record is written without any quoting and read leniently, so what comes out of it is what its
lines hold and need not be what went in.

* `HasName`, `HoldsUser`, `HoldsMasked` — what a line holds, said without saying how it is found.
* `userOf?_eq_some_iff`, `maskedOf?_eq_some_iff` — reading a line finds just this.
* `IsLegible` — the users that read back from their own line.
* `ofText?_toText_iff` — what the two lines of a record read as.
-/

/-! ### Lines -/

/-- No line has a line feed in it. -/
theorem notMem_of_mem_lines {text line : List Char} (h : line ∈ lines text) : '\n' ∉ line := by
  unfold lines at h
  rcases List.mem_append.mp h with hwhole | hlast
  · obtain ⟨part, hpart, rfl⟩ := List.mem_map.mp hwhole
    have hfeed := notMem_of_mem_pieces (List.mem_of_mem_dropLast hpart)
    unfold dropReturn
    split
    · exact fun hmem => hfeed (List.mem_of_mem_dropLast hmem)
    · exact hfeed
  · rw [Option.mem_toList, Option.filter_eq_some_iff] at hlast
    exact notMem_of_mem_pieces (List.mem_of_getLast? hlast.1)

/-- A text without line feeds is one line, unless it is empty. -/
theorem lines_of_notMem {text : List Char} (hfeed : '\n' ∉ text) :
    lines text = if text = [] then [] else [text] := by
  rw [lines, pieces_of_notMem hfeed]
  split
  · rename_i hempty
    rw [hempty]
    rfl
  · rename_i hne
    simp [hne]

/-- A line feed ends a line. -/
theorem lines_append_cons {line : List Char} (hfeed : '\n' ∉ line) (rest : List Char) :
    lines (line ++ '\n' :: rest) = dropReturn line :: lines rest := by
  obtain ⟨piece, more, hpieces⟩ : ∃ piece more, pieces '\n' rest = piece :: more :=
    List.exists_cons_of_ne_nil (pieces_ne_nil rest)
  unfold lines
  rw [pieces_append_cons hfeed, hpieces]
  rfl

/-! ### Names -/

/-- Does the name occur in the text, with at least one character after it? -/
def HasName (name text : List Char) : Prop :=
  ∃ before gap, text = before ++ name ++ gap ∧ gap ≠ []

theorem occurs_iff {part text : List Char} : occurs part text = true ↔ part <:+: text := by
  induction text with
  | nil => rw [occurs, List.isEmpty_iff, List.infix_nil]
  | cons c text ih =>
    rw [occurs, Bool.or_eq_true, ih, List.isPrefixOf_iff_prefix, List.infix_cons_iff]

theorem isNamed_reverse_iff {name text : List Char} :
    isNamed name text.reverse = true ↔ HasName name text := by
  rcases List.eq_nil_or_concat text with rfl | ⟨front, c, rfl⟩
  · refine ⟨nofun, ?_⟩
    rintro ⟨before, gap, htext, hgap⟩
    exact absurd (List.append_eq_nil_iff.mp htext.symm).2 hgap
  · rw [List.concat_eq_append, List.reverse_append, List.reverse_singleton, List.singleton_append,
      isNamed, occurs_iff, List.reverse_infix]
    constructor
    · rintro ⟨before, gap, rfl⟩
      exact ⟨before, gap ++ [c], by simp, by simp⟩
    · rintro ⟨before, gap, htext, hgap⟩
      rcases List.eq_nil_or_concat gap with rfl | ⟨gap, d, rfl⟩
      · exact absurd rfl hgap
      · rw [List.concat_eq_append, ← List.append_assoc] at htext
        exact ⟨before, gap, (List.append_inj' htext rfl).1.symm⟩

/-- What has a name in it has each of its characters. -/
theorem HasName.mem {name text : List Char} (h : HasName name text) {c : Char} (hc : c ∈ name) :
    c ∈ text := by
  obtain ⟨before, gap, rfl, -⟩ := h
  exact List.mem_append_left _ (List.mem_append_right _ hc)

/-! ### The user in a line -/

/-- Does the line hold this user: between the last quote and the one before it, but not between two
    quotes that stand side by side, with the name further to the left? -/
def HoldsUser (line : List Char) (user : String) : Prop :=
  ∃ before after, line = before ++ '"' :: (user.toList ++ '"' :: after) ∧
    HasName userName before ∧ user ≠ "" ∧ '"' ∉ user.toList.dropLast ∧ '"' ∉ after

/-- What stands before the first quote, and what from there on. -/
theorem cut_at_quote {front rest : List Char} (h : '"' ∉ front) :
    (front ++ '"' :: rest).takeWhile (· ≠ '"') = front ∧
      (front ++ '"' :: rest).dropWhile (· ≠ '"') = '"' :: rest := by
  have hfront : ∀ c ∈ front, decide (c ≠ '"') = true := by
    intro c hc
    exact decide_eq_true fun heq => h (heq ▸ hc)
  rw [List.takeWhile_append_of_pos hfront, List.dropWhile_append_of_pos hfront]
  simp

theorem dropWhile_eq_nil_of_notMem {text : List Char} (h : '"' ∉ text) :
    text.dropWhile (· ≠ '"') = [] := by
  apply List.dropWhile_eq_nil_iff.mpr
  intro c hc
  exact decide_eq_true fun heq => h (heq ▸ hc)

/-- **Reading a line for a user finds the one that it holds.** -/
theorem userOf?_eq_some_iff {line : List Char} {user : String} :
    userOf? line = some user ↔ HoldsUser line user := by
  constructor
  · intro h
    unfold userOf? at h
    -- From the right: the last quote, one character whatever it is, and the next quote.
    by_cases hlast : '"' ∈ line.reverse
    · obtain ⟨after, rest, hline, hafter⟩ := List.eq_append_cons_of_mem hlast
      rw [hline, (cut_at_quote hafter).2] at h
      cases rest with
      | nil => cases h
      | cons c rest =>
        dsimp only at h
        by_cases hfirst : '"' ∈ rest
        · obtain ⟨inner, before, rfl, hinner⟩ := List.eq_append_cons_of_mem hfirst
          rw [(cut_at_quote hinner).1, (cut_at_quote hinner).2] at h
          dsimp only at h
          split at h
          · rename_i hnamed
            rw [← List.reverse_reverse before, isNamed_reverse_iff] at hnamed
            obtain rfl := Option.some.inj h
            refine ⟨before.reverse, after.reverse, ?_, hnamed, ?_, ?_, ?_⟩
            · rw [← List.reverse_reverse line, hline]
              simp
            · simp [← String.toList_inj]
            · simpa using hinner
            · simpa using hafter
          · cases h
        · rw [dropWhile_eq_nil_of_notMem hfirst] at h
          cases h
    · rw [dropWhile_eq_nil_of_notMem hlast] at h
      cases h
  · rintro ⟨before, after, rfl, hnamed, hne, hinner, hafter⟩
    obtain ⟨init, c, huser⟩ : ∃ init c, user.toList = init ++ [c] := by
      rcases List.eq_nil_or_concat user.toList with hnil | ⟨init, c, huser⟩
      · exact absurd (String.toList_inj.mp hnil) hne
      · exact ⟨init, c, huser.trans (List.concat_eq_append)⟩
    rw [huser, List.dropLast_concat] at hinner
    have hline : (before ++ '"' :: (user.toList ++ '"' :: after)).reverse =
        after.reverse ++ '"' :: c :: (init.reverse ++ '"' :: before.reverse) := by
      rw [huser]
      simp
    unfold userOf?
    rw [hline, (cut_at_quote (by simpa using hafter)).2]
    dsimp only
    rw [(cut_at_quote (by simpa using hinner)).1, (cut_at_quote (by simpa using hinner)).2]
    dsimp only
    rw [if_pos (isNamed_reverse_iff.mpr hnamed), Option.some.injEq, ← String.toList_inj, huser]
    simp

/-! ### The password in a line -/

/-- Does the text start with a digit? -/
def StartsWithDigit (text : List Char) : Prop := ∃ d rest, text = d :: rest ∧ Hex.isDigit d = true

/-- Is there a marker at this place in the line that a digit follows? -/
def IsMark (line front after : List Char) : Prop :=
  line = front ++ marker ++ after ∧ StartsWithDigit after

/-- Is this the last such place? -/
def IsLastMark (line front after : List Char) : Prop :=
  IsMark line front after ∧
    ∀ front' after', IsMark line front' after' → front'.length ≤ front.length

/-- Does the line hold this masked password: in the digits after the last marker that has any, with
    the name further to the left? -/
def HoldsMasked (line : List Char) (masked : Bytes) : Prop :=
  ∃ front after, IsLastMark line front after ∧ HasName passwordName front ∧
    Hex.decode? (after.takeWhile Hex.isDigit) = some masked

/-- There is only one last place. -/
theorem IsLastMark.unique {line front after front' after' : List Char}
    (h : IsLastMark line front after) (h' : IsLastMark line front' after') :
    front = front' ∧ after = after' := by
  have hlength : front.length = front'.length :=
    Nat.le_antisymm (h'.2 _ _ h.1) (h.2 _ _ h'.1)
  have hline : front ++ (marker ++ after) = front' ++ (marker ++ after') := by
    rw [← List.append_assoc, ← List.append_assoc, ← h.1.1, ← h'.1.1]
  obtain ⟨hfront, hafter⟩ := List.append_inj hline hlength
  exact ⟨hfront, List.append_cancel_left hafter⟩

theorem startsWithDigit_iff {text : List Char} :
    (text.head?.map Hex.isDigit).getD false = true ↔ StartsWithDigit text := by
  cases text <;> simp [StartsWithDigit]

/-- A place further on in a line is one in what follows the first character. -/
theorem isMark_cons {c d : Char} {line front after : List Char} :
    IsMark (c :: line) (d :: front) after ↔ c = d ∧ IsMark line front after := by
  unfold IsMark
  rw [List.cons_append, List.cons_append, List.cons.injEq, and_assoc]

/-- What comes of looking for the last place: it is found, or there is none. -/
theorem lastMarked_cases (found : Option (List Char × List Char)) (before line : List Char) :
    (∃ front after, IsLastMark line front after ∧
        lastMarked found before line = some (front.reverse ++ before, after)) ∨
      (∀ front after, ¬ IsMark line front after) ∧ lastMarked found before line = found := by
  -- On the line: what is found so far stands unless there is a place here or further on.
  induction line generalizing found before with
  | nil =>
    refine .inr ⟨?_, rfl⟩
    intro front after h
    have hmarker : marker = [] :=
      (List.append_eq_nil_iff.mp (List.append_eq_nil_iff.mp h.1.symm).1).2
    exact absurd hmarker (by decide)
  | cons c line ih =>
    unfold lastMarked
    dsimp only
    rcases ih _ (c :: before) with ⟨front, after, ⟨hmark, hlast⟩, hfound⟩ | ⟨hnone, hfound⟩
    · rw [hfound]
      refine .inl ⟨c :: front, after, ⟨isMark_cons.mpr ⟨rfl, hmark⟩, ?_⟩, by simp⟩
      rintro (_ | ⟨d, front'⟩) after' h'
      · simp
      · have hle := hlast front' after' (isMark_cons.mp h').2
        simpa using hle
    · rw [hfound]
      split
      · rename_i here
        rw [Bool.and_eq_true, List.isPrefixOf_iff_prefix, List.prefix_iff_eq_append,
          startsWithDigit_iff] at here
        refine .inl ⟨[], (c :: line).drop marker.length, ⟨⟨here.1.symm, here.2⟩, ?_⟩, rfl⟩
        rintro (_ | ⟨d, front'⟩) after' h'
        · exact Nat.le_refl _
        · exact absurd (isMark_cons.mp h').2 (hnone _ _)
      · rename_i hnot
        refine .inr ⟨?_, rfl⟩
        rintro (_ | ⟨d, front⟩) after h
        · apply hnot
          obtain ⟨hline, hdigit⟩ := h
          rw [hline, List.nil_append, List.drop_left, Bool.and_eq_true, startsWithDigit_iff,
            List.isPrefixOf_iff_prefix]
          exact ⟨List.prefix_append _ _, hdigit⟩
        · exact hnone _ _ (isMark_cons.mp h).2

/-- **Reading a line for a masked password finds the one that it holds.** -/
theorem maskedOf?_eq_some_iff {line : List Char} {masked : Bytes} :
    maskedOf? line = some masked ↔ HoldsMasked line masked := by
  unfold maskedOf?
  rcases lastMarked_cases none [] line with ⟨front, after, hlast, hfound⟩ | ⟨hnone, hfound⟩
  · have hread : (if isNamed passwordName front.reverse then
          Hex.decode? (after.takeWhile Hex.isDigit) else none) = some masked ↔
        HasName passwordName front ∧ Hex.decode? (after.takeWhile Hex.isDigit) = some masked := by
      rw [← isNamed_reverse_iff]
      split <;> simp_all
    rw [hfound, List.append_nil]
    refine hread.trans ⟨fun h => ⟨front, after, hlast, h⟩, ?_⟩
    rintro ⟨front', after', hlast', h⟩
    obtain ⟨rfl, rfl⟩ := hlast.unique hlast'
    exact h
  · rw [hfound]
    refine ⟨nofun, ?_⟩
    rintro ⟨front, after, hlast, -⟩
    exact absurd hlast.1 (hnone _ _)

/-! ### Written lines -/

/-- A record is its two lines, each with a line feed. -/
theorem toText_eq (record : Record) : (toText record).toList =
    userLine record.user ++ '\n' :: (passwordLine record.masked ++ '\n' :: []) := by
  unfold toText
  rw [String.toList_ofList]
  simp

theorem mem_userLine {user : String} {c : Char} :
    c ∈ userLine user ↔ c ∈ userName ++ " = \"".toList ++ ['"'] ∨ c ∈ user.toList := by
  unfold userLine
  simp only [List.mem_append]
  tauto

/-- Besides what is in every such line there are digits. -/
theorem mem_passwordLine {masked : Bytes} {c : Char} (h : c ∈ passwordLine masked) :
    c ∈ passwordName ++ " = \"".toList ++ marker ++ ['"'] ∨ Hex.isDigit c = true := by
  unfold passwordLine at h
  rcases List.mem_append.mp h with h | hquote
  · rcases List.mem_append.mp h with hfixed | hdigit
    · exact .inl (List.mem_append_left _ hfixed)
    · exact .inr (Hex.isDigit_of_mem_encode hdigit)
  · exact .inl (List.mem_append_right _ hquote)

/-- A line that ends in a quote has no carriage return at its end. -/
theorem dropReturn_quote (front : List Char) : dropReturn (front ++ ['"']) = front ++ ['"'] := by
  unfold dropReturn
  rw [List.getLast?_concat]
  exact if_neg (by decide)

/-- The text of a record has these two lines if its user is on one. -/
theorem lines_toText {record : Record} (h : '\n' ∉ record.user.toList) :
    lines (toText record).toList = [userLine record.user, passwordLine record.masked] := by
  have huser : '\n' ∉ userLine record.user := by
    rw [mem_userLine, not_or]
    exact ⟨by decide, h⟩
  have hpassword : '\n' ∉ passwordLine record.masked := by
    intro hmem
    rcases mem_passwordLine hmem with hfixed | hdigit
    · exact absurd hfixed (by decide)
    · exact absurd hdigit (by decide)
  rw [toText_eq, lines_append_cons huser, lines_append_cons hpassword,
    lines_of_notMem List.not_mem_nil, if_pos rfl]
  unfold userLine passwordLine
  rw [dropReturn_quote, dropReturn_quote]

/-! ### The users of written lines -/

/-- Is this a user who reads back from the line that was written for them?  There must be something
    of it, on a single line, and no quote in it but as the last character. -/
def IsLegible (user : String) : Prop :=
  user ≠ "" ∧ '\n' ∉ user.toList ∧ '"' ∉ user.toList.dropLast

instance (user : String) : Decidable (IsLegible user) := inferInstanceAs (Decidable (_ ∧ _ ∧ _))

theorem holdsUser_userLine_iff {user : String} :
    HoldsUser (userLine user) user ↔ user ≠ "" ∧ '"' ∉ user.toList.dropLast := by
  constructor
  · rintro ⟨before, after, -, -, hne, hinner, -⟩
    exact ⟨hne, hinner⟩
  · rintro ⟨hne, hinner⟩
    have hgap : " = \"".toList = " = ".toList ++ ['"'] := by decide
    refine ⟨userName ++ " = ".toList, [], ?_, ⟨[], " = ".toList, rfl, by decide⟩, hne, hinner,
      List.not_mem_nil⟩
    unfold userLine
    rw [hgap]
    simp only [List.append_assoc, List.cons_append, List.nil_append]

/-- The line of a password holds no user. -/
theorem not_holdsUser_passwordLine (masked : Bytes) (user : String) :
    ¬ HoldsUser (passwordLine masked) user := by
  rintro ⟨before, after, hline, hnamed, -⟩
  -- One of the letters of the name is nowhere in the line.
  have hmem : 'r' ∈ passwordLine masked := by
    rw [hline]
    exact List.mem_append_left _ (hnamed.mem (by decide))
  rcases mem_passwordLine hmem with hfixed | hdigit
  · exact absurd hfixed (by decide)
  · exact absurd hdigit (by decide)

/-! ### The passwords of written lines -/

/-- Where there is nothing like a marker around one, this is the only place for a marker. -/
theorem eq_of_marker {front after front' after' : List Char} (hfront : '#' ∉ front)
    (hafter : '#' ∉ after) (h : front ++ marker ++ after = front' ++ marker ++ after') :
    front = front' ∧ after = after' := by
  have hmarker : marker = '#' :: marker.tail := by decide
  -- All the signs there are belong to the marker.
  have hfront' : '#' ∉ front' := by
    have hcount := congrArg (List.count '#') h
    simp only [List.count_append] at hcount
    rw [List.count_eq_zero.mpr hfront, List.count_eq_zero.mpr hafter] at hcount
    exact List.count_eq_zero.mp (by omega)
  have hstart : ∀ {part rest more : List Char}, marker ++ rest = part ++ more → '#' ∉ part →
      part = [] := by
    intro part rest more heq hpart
    cases part with
    | nil => rfl
    | cons c part =>
      rw [hmarker, List.cons_append, List.cons_append, List.cons.injEq] at heq
      exact absurd (heq.1 ▸ List.mem_cons_self) hpart
  have hsame : front = front' := by
    rw [List.append_assoc, List.append_assoc] at h
    rcases List.append_eq_append_iff.mp h with ⟨part, rfl, hpart⟩ | ⟨part, rfl, hpart⟩
    · rw [hstart hpart fun hmem => hfront' (List.mem_append_right _ hmem), List.append_nil]
    · rw [hstart hpart fun hmem => hfront (List.mem_append_right _ hmem), List.append_nil]
  subst hsame
  exact ⟨rfl, List.append_cancel_left h⟩

/-- Digits are read up to the quote. -/
theorem takeWhile_encode (masked : Bytes) :
    (Hex.encode .upper masked ++ ['"']).takeWhile Hex.isDigit = Hex.encode .upper masked := by
  have hquote : List.takeWhile Hex.isDigit ['"'] = [] := by decide
  rw [List.takeWhile_append_of_pos fun _ h => Hex.isDigit_of_mem_encode h, hquote, List.append_nil]

/-- There are digits unless there is nothing to write. -/
theorem startsWithDigit_encode_iff {masked : Bytes} :
    StartsWithDigit (Hex.encode .upper masked ++ ['"']) ↔ masked ≠ [] := by
  have hempty : Hex.encode .upper masked = [] ↔ masked = [] := Hex.encode_eq_nil
  rw [← startsWithDigit_iff, ne_eq, ← hempty]
  cases hencode : Hex.encode .upper masked with
  | nil => exact ⟨fun h => absurd h (by decide), fun h => absurd rfl h⟩
  | cons d rest =>
    have hd : d ∈ Hex.encode .upper masked := by
      rw [hencode]
      exact List.mem_cons_self
    exact ⟨fun _ => nofun, fun _ => Hex.isDigit_of_mem_encode hd⟩

/-- In the line of a masked password there is a marker before its digits, and no other. -/
theorem isMark_passwordLine_iff {masked : Bytes} {front after : List Char} :
    IsMark (passwordLine masked) front after ↔ masked ≠ [] ∧
      front = passwordName ++ " = \"".toList ∧ after = Hex.encode .upper masked ++ ['"'] := by
  have hline : passwordLine masked = passwordName ++ " = \"".toList ++ marker ++
      (Hex.encode .upper masked ++ ['"']) := by
    unfold passwordLine
    rw [List.append_assoc _ _ ['"']]
  have hafter : '#' ∉ Hex.encode .upper masked ++ ['"'] := by
    intro hmem
    rcases List.mem_append.mp hmem with hdigit | hquote
    · exact absurd (Hex.isDigit_of_mem_encode hdigit) (by decide)
    · exact absurd hquote (by decide)
  constructor
  · rintro ⟨hmark, hdigit⟩
    obtain ⟨rfl, rfl⟩ := eq_of_marker (by decide) hafter (hline.symm.trans hmark)
    exact ⟨startsWithDigit_encode_iff.mp hdigit, rfl, rfl⟩
  · rintro ⟨hne, rfl, rfl⟩
    exact ⟨hline, startsWithDigit_encode_iff.mpr hne⟩

/-- The line of a masked password holds it, unless it is empty, and no other. -/
theorem holdsMasked_passwordLine_iff {masked found : Bytes} :
    HoldsMasked (passwordLine masked) found ↔ masked ≠ [] ∧ found = masked := by
  constructor
  · rintro ⟨front, after, ⟨hmark, -⟩, -, hread⟩
    obtain ⟨hne, rfl, rfl⟩ := isMark_passwordLine_iff.mp hmark
    rw [takeWhile_encode, Hex.decode?_encode] at hread
    exact ⟨hne, (Option.some.inj hread).symm⟩
  · rintro ⟨hne, rfl⟩
    have hmark := isMark_passwordLine_iff.mpr ⟨hne, rfl, rfl⟩
    refine ⟨_, _, ⟨hmark, ?_⟩, ⟨[], " = \"".toList, rfl, by decide⟩, ?_⟩
    · intro front after h
      rw [(isMark_passwordLine_iff.mp h).2.1]
    · rw [takeWhile_encode, Hex.decode?_encode]

/-- A line without the sign that markers are made of holds no masked password. -/
theorem not_holdsMasked_of_notMem {line : List Char} (h : '#' ∉ line) (masked : Bytes) :
    ¬ HoldsMasked line masked := by
  rintro ⟨front, after, ⟨⟨rfl, -⟩, -⟩, -⟩
  apply h
  exact List.mem_append_left _ (List.mem_append_right _ (by decide))

/-! ### Records -/

/-- A text holds a record if some line holds a user and some line a masked password. -/
theorem ofText?_eq_some_iff {text : String} {record : Record} :
    ofText? text = some record ↔ (lines text.toList).findSome? userOf? = some record.user ∧
      (lines text.toList).findSome? maskedOf? = some record.masked := by
  unfold ofText?
  dsimp only
  cases (lines text.toList).findSome? userOf? with
  | none => exact ⟨nofun, nofun⟩
  | some user =>
    cases (lines text.toList).findSome? maskedOf? with
    | none => exact ⟨nofun, nofun⟩
    | some masked =>
      show some (Record.mk user masked) = some record ↔ some user = _ ∧ some masked = _
      rw [Option.some.injEq, Option.some.injEq, Option.some.injEq]
      exact ⟨fun h => h ▸ ⟨rfl, rfl⟩, fun h => by rw [h.1, h.2]⟩

/-- What is found in two lines is in the first one, or in the second one with nothing in the
    first. -/
theorem findSome?_pair {α : Type} (read : List Char → Option α) (first second : List Char)
    (result : α) : [first, second].findSome? read = some result ↔
      read first = some result ∨ read first = none ∧ read second = some result := by
  rw [List.findSome?_cons, List.findSome?_singleton]
  cases read first <;> simp

/-- What a record reads as whose user is on a single line: the user that this line holds, with the
    masked password that it holds as well, or else with the one that was written, unless this is
    empty. -/
theorem ofText?_toText_of_single {user read : String} {masked found : Bytes}
    (h : '\n' ∉ user.toList) :
    ofText? (toText { user, masked }) = some { user := read, masked := found } ↔
      HoldsUser (userLine user) read ∧ (HoldsMasked (userLine user) found ∨
        (∀ other, ¬ HoldsMasked (userLine user) other) ∧ masked ≠ [] ∧ found = masked) := by
  have hread : userOf? (userLine user) = some read ∨
      userOf? (userLine user) = none ∧ userOf? (passwordLine masked) = some read ↔
      HoldsUser (userLine user) read := by
    rw [userOf?_eq_some_iff, userOf?_eq_some_iff]
    refine ⟨fun h => h.resolve_right fun hother => ?_, .inl⟩
    exact not_holdsUser_passwordLine masked read hother.2
  have hnone : maskedOf? (userLine user) = none ↔
      ∀ other, ¬ HoldsMasked (userLine user) other := by
    rw [Option.eq_none_iff_forall_ne_some]
    exact forall_congr' fun other => maskedOf?_eq_some_iff.not
  rw [ofText?_eq_some_iff, lines_toText h, findSome?_pair, findSome?_pair, hread, hnone,
    maskedOf?_eq_some_iff, maskedOf?_eq_some_iff, holdsMasked_passwordLine_iff]

/-- **What a record reads as.**  The user that was written reads back if it is legible, with the
    masked password that its own line holds; if that holds none, with the one that was written,
    unless this is empty. -/
theorem ofText?_toText_iff {user : String} {masked found : Bytes} :
    ofText? (toText { user, masked }) = some { user, masked := found } ↔
      IsLegible user ∧ (HoldsMasked (userLine user) found ∨
        (∀ other, ¬ HoldsMasked (userLine user) other) ∧ masked ≠ [] ∧ found = masked) := by
  by_cases hfeed : '\n' ∈ user.toList
  · -- Whatever is read as the user is on a single line.
    constructor
    · intro h
      obtain ⟨line, hline, huser⟩ :=
        List.exists_of_findSome?_eq_some (ofText?_eq_some_iff.mp h).1
      obtain ⟨before, after, rfl, -⟩ := userOf?_eq_some_iff.mp huser
      apply absurd _ (notMem_of_mem_lines hline)
      exact List.mem_append_right _ (List.mem_cons_of_mem _ (List.mem_append_left _ hfeed))
    · rintro ⟨hlegible, -⟩
      exact absurd hfeed hlegible.2.1
  · rw [ofText?_toText_of_single hfeed, holdsUser_userLine_iff]
    unfold IsLegible
    simp only [hfeed, not_false_eq_true, true_and]

end Lockbox.Record
