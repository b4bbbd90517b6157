import Lockbox.Proofs.Credentials.Pattern
import Lockbox.Proofs.Credentials.Recovery

namespace Lockbox

/-!
# The grammar of records

A record is said to be two patterns, each of which captures something on the first line that it
matches.  What these patterns capture is just what is read.

* `Record.userPattern`, `Record.passwordPattern` — the two patterns.
* `Record.userPattern_iff`, `Record.passwordPattern_iff` — what they capture on a line.
* `Record.HasLines`, `Record.FirstOf` — the lines of a text, and the first one that has something.
* `record_grammar` — what is read from a text.
-/

namespace Record

/-! ### The two patterns -/

/-- The pattern of a line with a user, which is between two quotes. -/
def userPattern : Pattern := .around userName ['"'] Pattern.inLine ['"']

/-- The pattern of a line with a masked password, whose digits follow a marker.  They need not be
    followed by anything. -/
def passwordPattern : Pattern := .around passwordName marker Hex.isDigit []

/-- Does the line hold these digits: as many as there are after the last marker that has any, with
    the name further to the left? -/
def HoldsDigits (line digits : List Char) : Prop :=
  ∃ front after, IsLastMark line front after ∧ HasName passwordName front ∧
    after.takeWhile Hex.isDigit = digits

variable {line digits : List Char} {user : String}

/-- A line that holds a masked password holds the digits for it. -/
theorem holdsMasked_iff {masked : Bytes} : HoldsMasked line masked ↔
    ∃ digits, HoldsDigits line digits ∧ Hex.decode? digits = some masked := by
  constructor
  · rintro ⟨front, after, hlast, hname, hmasked⟩
    exact ⟨_, ⟨front, after, hlast, hname, rfl⟩, hmasked⟩
  · rintro ⟨_, ⟨front, after, hlast, hname, rfl⟩, hmasked⟩
    exact ⟨front, after, hlast, hname, hmasked⟩

theorem HoldsDigits.isDigit (h : HoldsDigits line digits) : ∀ c ∈ digits, Hex.isDigit c = true := by
  obtain ⟨front, after, -, -, rfl⟩ := h
  exact fun c hc => List.mem_takeWhile_imp hc

/-- The longest text between quotes at the last place where one stands is the user. -/
theorem holdsUser_of_holds (hfeed : '\n' ∉ line)
    (h : Pattern.Holds userName ['"'] Pattern.inLine ['"'] line user.toList) :
    HoldsUser line user := by
  obtain ⟨before, rest, hname, hstands, hlast, hlongest⟩ := h
  have hline := hstands.line_eq
  refine ⟨before, rest, hline, hname, fun heq => hstands.ne_nil (heq ▸ rfl), ?_, ?_⟩
  · intro hquote
    -- A quote that is not the last character opens a text further right.
    obtain ⟨one, two, htwo, -⟩ := List.eq_append_cons_of_mem hquote
    obtain ⟨c, hlastchar⟩ : ∃ c, user.toList = user.toList.dropLast ++ [c] :=
      ⟨_, (List.dropLast_append_getLast hstands.ne_nil).symm⟩
    have hsplit : user.toList = one ++ '"' :: (two ++ [c]) := by
      rw [hlastchar, htwo]
      simp
    have hfurther : Pattern.Stands ['"'] Pattern.inLine ['"'] line (before ++ '"' :: one)
        (two ++ [c]) rest := by
      refine ⟨?_, by simp, fun d hd => hstands.accepted d ?_⟩
      · rw [hline, hsplit]
        simp
      · rw [hsplit]
        exact List.mem_append_right _ (List.mem_cons_of_mem _ hd)
    have hle := hlast _ _ _ hfurther
    rw [List.length_append, List.length_cons] at hle
    omega
  · intro hquote
    -- A quote after the closing one closes a longer text.
    obtain ⟨one, two, rfl, -⟩ := List.eq_append_cons_of_mem hquote
    have hlonger : Pattern.Stands ['"'] Pattern.inLine ['"'] line before
        (user.toList ++ '"' :: one) two := by
      refine ⟨by rw [hline]; simp, by simp, fun d hd => decide_eq_true fun heq => hfeed ?_⟩
      rw [hline, ← heq]
      simp only [List.mem_append, List.mem_cons] at hd ⊢
      tauto
    have hle := hlongest _ _ hlonger
    rw [List.length_append, List.length_cons] at hle
    omega

/-- **What the pattern of the user captures.** -/
theorem userPattern_iff (hfeed : '\n' ∉ line) :
    userPattern.capture? line = some user.toList ↔ HoldsUser line user := by
  refine ⟨fun h => holdsUser_of_holds hfeed (Pattern.holds_of_capture? hfeed h), fun h => ?_⟩
  obtain ⟨before, after, hline, hname, hne, -⟩ := id h
  have hstands : Pattern.Stands ['"'] Pattern.inLine ['"'] line before user.toList after := by
    refine ⟨hline, fun heq => hne (String.toList_inj.mp heq), fun c hc => ?_⟩
    refine decide_eq_true fun heq => hfeed ?_
    rw [hline, ← heq]
    exact List.mem_append_right _ (List.mem_cons_of_mem _ (List.mem_append_left _ hc))
  obtain ⟨found, hfound⟩ := Pattern.exists_capture?_of_stands hfeed hname hstands
  -- What is captured is a user of the line too, and there is only one.
  have hother : HoldsUser line (String.ofList found) := by
    apply holdsUser_of_holds hfeed
    rw [String.toList_ofList]
    exact Pattern.holds_of_capture? hfeed hfound
  rw [← userOf?_eq_some_iff] at h hother
  obtain rfl := Option.some.inj (h.symm.trans hother)
  rw [String.toList_ofList]
  exact hfound

example : userPattern.capture? "webdav_user = \"a\"b\"".toList = some "b".toList := by decide

/-- The longest run of digits after the last marker that has any is what the line holds. -/
theorem holdsDigits_of_holds
    (h : Pattern.Holds passwordName marker Hex.isDigit [] line digits) :
    HoldsDigits line digits := by
  obtain ⟨before, rest, hname, hstands, hlast, hlongest⟩ := h
  have hline : line = before ++ marker ++ (digits ++ rest) := by
    rw [hstands.line_eq, List.nil_append, List.append_assoc]
  refine ⟨before, digits ++ rest, ⟨⟨hline, ?_⟩, ?_⟩, hname, ?_⟩
  · obtain ⟨d, more, rfl⟩ := List.exists_cons_of_ne_nil hstands.ne_nil
    exact ⟨d, more ++ rest, rfl, hstands.accepted d List.mem_cons_self⟩
  · rintro front _ ⟨hfront, d, more, rfl, hd⟩
    refine hlast front [d] more ⟨?_, List.cons_ne_nil _ _, ?_⟩
    · rw [hfront, List.nil_append, List.append_assoc]
      rfl
    · intro c hc
      rwa [List.mem_singleton.mp hc]
  · rw [List.takeWhile_append_of_pos hstands.accepted]
    cases rest with
    | nil => rw [List.takeWhile_nil, List.append_nil]
    | cons d rest =>
      rw [List.takeWhile_cons_of_neg, List.append_nil]
      intro hd
      have hlonger : Pattern.Stands marker Hex.isDigit [] line before (digits ++ [d]) rest := by
        refine ⟨by rw [hline]; simp, by simp, fun c hc => ?_⟩
        rcases List.mem_append.mp hc with hdigit | hnext
        · exact hstands.accepted c hdigit
        · rwa [List.mem_singleton.mp hnext]
      have hle := hlongest _ _ hlonger
      rw [List.length_append, List.length_singleton] at hle
      omega

/-- **What the pattern of the password captures.** -/
theorem passwordPattern_iff (hfeed : '\n' ∉ line) :
    passwordPattern.capture? line = some digits ↔ HoldsDigits line digits := by
  refine ⟨fun h => holdsDigits_of_holds (Pattern.holds_of_capture? hfeed h), ?_⟩
  rintro ⟨front, after, hlast, hname, rfl⟩
  obtain ⟨hline, d, more, hafter, hd⟩ := hlast.1
  have hstands : Pattern.Stands marker Hex.isDigit [] line front (after.takeWhile Hex.isDigit)
      (after.dropWhile Hex.isDigit) := by
    refine ⟨?_, ?_, fun c hc => List.mem_takeWhile_imp hc⟩
    · rw [List.nil_append, List.takeWhile_append_dropWhile, ← List.append_assoc]
      exact hline
    · rw [hafter, List.takeWhile_cons_of_pos hd]
      exact List.cons_ne_nil _ _
  obtain ⟨found, hfound⟩ := Pattern.exists_capture?_of_stands hfeed hname hstands
  -- What is captured stands after the last marker as well.
  obtain ⟨front', after', hlast', -, rfl⟩ :=
    holdsDigits_of_holds (Pattern.holds_of_capture? hfeed hfound)
  obtain ⟨-, rfl⟩ := hlast.unique hlast'
  exact hfound

/-! ### Lines -/

/-- Are these the lines of the text?  A line ends at a line feed, with or without a carriage return
    before it, and the last one need not end. -/
inductive HasLines : List Char → List (List Char) → Prop
  /-- There is nothing more. -/
  | none : HasLines [] []
  /-- The last line does not end. -/
  | last {line : List Char} (hne : line ≠ []) (hfeed : '\n' ∉ line) : HasLines line [line]
  /-- A line feed. -/
  | feed {line rest : List Char} {lines : List (List Char)} (hfeed : '\n' ∉ line)
      (hreturn : line.getLast? ≠ some '\r') (h : HasLines rest lines) :
      HasLines (line ++ '\n' :: rest) (line :: lines)
  /-- A carriage return and a line feed. -/
  | returnFeed {line rest : List Char} {lines : List (List Char)} (hfeed : '\n' ∉ line)
      (h : HasLines rest lines) : HasLines (line ++ '\r' :: '\n' :: rest) (line :: lines)

/-- The lines of a text are the ones that are read. -/
theorem HasLines.eq_lines {text : List Char} {ls : List (List Char)} (h : HasLines text ls) :
    ls = lines text := by
  induction h with
  | none => rfl
  | last hne hfeed => rw [lines_of_notMem hfeed, if_neg hne]
  | feed hfeed hreturn _ ih => rw [lines_append_cons hfeed, dropReturn, if_neg hreturn, ih]
  | @returnFeed line rest _ hfeed _ ih =>
    have hreturn : '\n' ∉ line ++ ['\r'] := by simp [hfeed]
    have hlines := lines_append_cons hreturn rest
    rw [List.append_assoc, List.singleton_append] at hlines
    rw [hlines, dropReturn, List.getLast?_concat, if_pos rfl, List.dropLast_concat, ih]

/-- The ones that are read are the lines of the text. -/
theorem hasLines_lines (text : List Char) : HasLines text (lines text) := by
  by_cases hfeed : '\n' ∈ text
  · obtain ⟨line, rest, htext, hline⟩ := List.eq_append_cons_of_mem hfeed
    have hrest := hasLines_lines rest
    rw [htext, lines_append_cons hline, dropReturn]
    split
    · rename_i hreturn
      obtain ⟨front, rfl⟩ := List.getLast?_eq_some_iff.mp hreturn
      rw [List.dropLast_concat, List.append_assoc]
      exact .returnFeed (fun hmem => hline (List.mem_append_left _ hmem)) hrest
    · rename_i hreturn
      exact .feed hline hreturn hrest
  · rw [lines_of_notMem hfeed]
    split
    · rename_i hempty
      exact hempty ▸ .none
    · rename_i hne
      exact .last hne hfeed
termination_by text.length
decreasing_by
  rw [htext, List.length_append, List.length_cons]
  omega

/-- Is this what the first line has that has anything? -/
def FirstOf {α : Type} (has : List Char → α → Prop) (lines : List (List Char)) (result : α) :
    Prop :=
  ∃ before line after, lines = before ++ line :: after ∧ has line result ∧
    ∀ earlier ∈ before, ∀ other, ¬ has earlier other

section

variable {α : Type} {has : List Char → α → Prop} {read : List Char → Option α}
  {lines : List (List Char)}

/-- Nothing can be read where no line has anything. -/
theorem findSome?_eq_none_iff_forall_not
    (h : ∀ line ∈ lines, ∀ result, read line = some result ↔ has line result) :
    lines.findSome? read = none ↔ ∀ line ∈ lines, ∀ result, ¬ has line result := by
  rw [List.findSome?_eq_none_iff]
  refine forall_congr' fun line => forall_congr' fun hline => ?_
  rw [Option.eq_none_iff_forall_ne_some]
  exact forall_congr' fun result => (h line hline result).not

/-- The first line that can be read is the first line that has anything. -/
theorem findSome?_eq_some_iff_firstOf {result : α}
    (h : ∀ line ∈ lines, ∀ result, read line = some result ↔ has line result) :
    lines.findSome? read = some result ↔ FirstOf has lines result := by
  rw [List.findSome?_eq_some_iff]
  refine exists_congr fun before => exists_congr fun line => exists_congr fun after => ?_
  refine and_congr_right ?_
  rintro rfl
  refine and_congr (h line (by simp) result) ?_
  refine forall_congr' fun earlier => forall_congr' fun hmem => ?_
  rw [Option.eq_none_iff_forall_ne_some]
  exact forall_congr' fun other => (h earlier (by simp [hmem]) other).not

end

/-! ### Records -/

/-- Does the pattern of the user capture this on the line? -/
def IsUserLine (line : List Char) (user : String) : Prop :=
  userPattern.capture? line = some user.toList

/-- Does the pattern of the password capture digits on the line that stand for these bytes? -/
def IsPasswordLine (line : List Char) (masked : Bytes) : Prop :=
  ∃ digits, passwordPattern.capture? line = some digits ∧ Hex.decode? digits = some masked

/-- A line holds the user that is captured on it. -/
theorem userOf?_eq_some_iff_isUserLine (hfeed : '\n' ∉ line) :
    userOf? line = some user ↔ IsUserLine line user := by
  rw [userOf?_eq_some_iff, IsUserLine, userPattern_iff hfeed]

/-- A line holds the masked password whose digits are captured on it. -/
theorem maskedOf?_eq_some_iff_isPasswordLine {masked : Bytes} (hfeed : '\n' ∉ line) :
    maskedOf? line = some masked ↔ IsPasswordLine line masked := by
  rw [maskedOf?_eq_some_iff, holdsMasked_iff]
  exact exists_congr fun digits => and_congr_left' (passwordPattern_iff hfeed).symm

/-- A text holds what the first lines have on which there is a user or a password. -/
theorem ofText?_eq_some_iff_firstOf {text : String} {masked : Bytes} :
    ofText? text = some { user, masked } ↔ FirstOf IsUserLine (lines text.toList) user ∧
      FirstOf IsPasswordLine (lines text.toList) masked := by
  rw [ofText?_eq_some_iff,
    findSome?_eq_some_iff_firstOf fun line hline user =>
      userOf?_eq_some_iff_isUserLine (notMem_of_mem_lines hline),
    findSome?_eq_some_iff_firstOf fun line hline masked =>
      maskedOf?_eq_some_iff_isPasswordLine (notMem_of_mem_lines hline)]

/-- A text holds no record if no line has a user, or none a password. -/
theorem ofText?_eq_none_iff {text : String} :
    ofText? text = none ↔ (∀ line ∈ lines text.toList, ∀ user, ¬ IsUserLine line user) ∨
      ∀ line ∈ lines text.toList, ∀ masked, ¬ IsPasswordLine line masked := by
  rw [← findSome?_eq_none_iff_forall_not fun line hline user =>
      userOf?_eq_some_iff_isUserLine (notMem_of_mem_lines hline),
    ← findSome?_eq_none_iff_forall_not fun line hline masked =>
      maskedOf?_eq_some_iff_isPasswordLine (notMem_of_mem_lines hline)]
  unfold ofText?
  dsimp only
  cases (lines text.toList).findSome? userOf? with
  | none => exact ⟨fun _ => .inl rfl, fun _ => rfl⟩
  | some user =>
    cases (lines text.toList).findSome? maskedOf? with
    | none => exact ⟨fun _ => .inr rfl, fun _ => rfl⟩
    | some masked => exact ⟨nofun, fun h => h.elim nofun nofun⟩

/-! ### Written records -/

/-- A text without some character is in one of the two that this character separates. -/
theorem infix_append_cons {part front back : List Char} {separator : Char}
    (h : part <:+: front ++ separator :: back) (hpart : separator ∉ part) :
    part <:+: front ∨ part <:+: back := by
  rw [List.infix_append_iff] at h
  rcases h with hfront | hback | ⟨one, two, rfl, hone, htwo⟩
  · exact .inl hfront
  · rcases List.infix_cons_iff.mp hback with hstart | hback
    · cases part with
      | nil => exact .inl (List.nil_infix)
      | cons c part =>
        obtain ⟨rfl, -⟩ := List.cons_prefix_cons.mp hstart
        exact absurd List.mem_cons_self hpart
    · exact .inr hback
  · cases two with
    | nil =>
      rw [List.append_nil]
      exact .inl hone.isInfix
    | cons c two =>
      obtain ⟨rfl, -⟩ := List.cons_prefix_cons.mp htwo
      exact absurd (List.mem_append_right _ List.mem_cons_self) hpart

/-- The line of a user whose name does not contain that of the password holds no password. -/
theorem not_holdsMasked_userLine (huser : ¬ passwordName <:+: user.toList) (masked : Bytes) :
    ¬ HoldsMasked (userLine user) masked := by
  rintro ⟨front, after, ⟨⟨hline, -⟩, -⟩, ⟨before, gap, rfl, -⟩, -⟩
  have hname : passwordName <:+: userLine user := by
    rw [hline, List.append_assoc, List.append_assoc _ gap]
    exact ⟨before, _, rfl⟩
  have hquotes : userLine user = userName ++ " = ".toList ++ '"' :: (user.toList ++ '"' :: []) := by
    unfold userLine
    rw [show " = \"".toList = " = ".toList ++ ['"'] by decide]
    simp only [List.append_assoc, List.cons_append, List.nil_append]
  have hquote : '"' ∉ passwordName := by decide
  rw [hquotes] at hname
  rcases infix_append_cons hname hquote with hfront | hback
  · exact absurd hfront (by decide)
  · rcases infix_append_cons hback hquote with hinside | hend
    · exact huser hinside
    · exact absurd hend (by decide)

end Record

/-- Reading says that a text cannot be parsed if it holds no record. -/
theorem Vault.deobfuscate_eq_unparseable_iff {vault : Vault} {files : Files} {c : Cfb8}
    {text : String} (hcryptor : vault.cryptor = .ok c)
    (htext : files.readText vault.path = .ok text) :
    vault.deobfuscate files = .error (.unparseable vault.path) ↔ Record.ofText? text = none := by
  refine ⟨fun h => ?_, deobfuscate_of_unparseable hcryptor htext⟩
  cases hrecord : Record.ofText? text with
  | none => rfl
  | some record =>
    have hread := (deobfuscate_eq_ok hcryptor htext).mpr ⟨record.masked, hrecord, rfl⟩
    rw [h] at hread
    cases hread

/-- **A record is read by its grammar.**  The user and the masked password of a text are what the
    two patterns capture on the first lines where they do, the password only where its digits stand
    for bytes, that is, where their number is even; if one of the two is missing, reading says that
    the text cannot be parsed.  What a pattern captures on a line is what the line holds.  So the
    two lines that are written for credentials read back as these, if the password is not empty and
    the user is neither empty nor contains a quote, a line feed or the name of the password. -/
theorem record_grammar :
    (∀ text : String, ∃ lines, (∀ other, Record.HasLines text.toList other ↔ other = lines) ∧
      (∀ line ∈ lines,
        (∀ user : String, Record.userPattern.capture? line = some user.toList ↔
          Record.HoldsUser line user) ∧
        (∀ digits, Record.passwordPattern.capture? line = some digits ↔
          Record.HoldsDigits line digits) ∧
        ∀ digits, Record.HoldsDigits line digits →
          ((∃ masked, Hex.decode? digits = some masked) ↔ digits.length % 2 = 0)) ∧
      (∀ user masked, Record.ofText? text = some { user, masked } ↔
        Record.FirstOf Record.IsUserLine lines user ∧
          Record.FirstOf Record.IsPasswordLine lines masked) ∧
      ∀ (vault : Vault) (files : Files) c, vault.cryptor = .ok c →
        files.readText vault.path = .ok text →
          (∀ user password, vault.deobfuscate files = .ok (user, password) ↔
            ∃ masked, Record.ofText? text = some { user, masked } ∧
              (c.decrypt masked).1.toTextLossy = password) ∧
          (vault.deobfuscate files = .error (.unparseable vault.path) ↔
            (∀ line ∈ lines, ∀ user, ¬ Record.IsUserLine line user) ∨
              ∀ line ∈ lines, ∀ masked, ¬ Record.IsPasswordLine line masked)) ∧
    ∀ (vault : Vault) (user password : String) (files next : Files),
      user ≠ "" → '"' ∉ user.toList → '\n' ∉ user.toList →
      ¬ Record.passwordName <:+: user.toList → password ≠ "" →
      vault.obfuscate user password files = .ok next →
        ∃ c, vault.cryptor = .ok c ∧
          next.readText vault.path = .ok (Vault.written c user password) ∧
          Record.ofText? (Vault.written c user password) =
            some { user, masked := Vault.mask c password } ∧
          vault.deobfuscate next = .ok (user, password) := by
  constructor
  · intro text
    refine ⟨Record.lines text.toList, fun other => ⟨Record.HasLines.eq_lines, ?_⟩,
      fun line hline => ?_, fun user masked => Record.ofText?_eq_some_iff_firstOf,
      fun vault files c hcryptor htext => ⟨fun user password => ?_, ?_⟩⟩
    · rintro rfl
      exact Record.hasLines_lines _
    · have hfeed := Record.notMem_of_mem_lines hline
      refine ⟨fun user => Record.userPattern_iff hfeed, fun digits =>
        Record.passwordPattern_iff hfeed, fun digits hdigits => ?_⟩
      rw [← Option.isSome_iff_exists]
      exact Hex.isSome_decode?_iff hdigits.isDigit
    · exact Vault.deobfuscate_eq_ok hcryptor htext
    · rw [Vault.deobfuscate_eq_unparseable_iff hcryptor htext, Record.ofText?_eq_none_iff]
  · intro vault user password files next hne hquote hfeed hname hpassword hstored
    obtain ⟨c, hcryptor, -⟩ := Vault.obfuscate_eq_ok.mp hstored
    have hread := Vault.readText_of_obfuscate hcryptor hstored
    have hlegible : Record.IsLegible user :=
      ⟨hne, hfeed, fun hmem => hquote (List.mem_of_mem_dropLast hmem)⟩
    have hmasked : Vault.mask c password ≠ [] := Vault.mask_eq_nil_iff.not.mpr hpassword
    have hrecord := Record.ofText?_toText_iff.mpr
      ⟨hlegible, .inr ⟨Record.not_holdsMasked_userLine hname, hmasked, rfl⟩⟩
    exact ⟨c, hcryptor, hread, hrecord,
      (Vault.deobfuscate_eq_ok hcryptor hread).mpr ⟨_, hrecord, Vault.toTextLossy_mask⟩⟩

/-- Credentials with a marker in the name of the user are read back, and an empty text cannot be
    parsed. -/
theorem marked_read_back :
    (∃ next, Vault.sample.obfuscate "##obfuscated##:00" "p" {} = .ok next ∧
      Vault.sample.deobfuscate next = .ok ("##obfuscated##:00", "p")) ∧
    Vault.sample.deobfuscate (Files.insert {} ["r"] (.file [] 0o600)) =
      .error (.unparseable "r") := by
  constructor
  · obtain ⟨next, hstored⟩ := Vault.exists_obfuscate_sample "##obfuscated##:00" "p"
    obtain ⟨c, -, -, -, hback⟩ := record_grammar.2 Vault.sample "##obfuscated##:00" "p" {} next
      (by decide) (by decide) (by decide) (by decide) (by decide) hstored
    exact ⟨next, hstored, hback⟩
  · obtain ⟨lines, hlines, -, -, hvault⟩ := record_grammar.1 ""
    obtain ⟨-, hunparseable⟩ := hvault Vault.sample (Files.insert {} ["r"] (.file [] 0o600)) _
      Vault.cryptor_sample (by decide)
    obtain rfl := (hlines []).mp .none
    exact hunparseable.mpr (.inl nofun)

end Lockbox
