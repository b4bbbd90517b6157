import Lockbox.Proofs.Json.Lexing

namespace Lockbox.Json

/-!
# Values and their tokens

Tokens spell at most one value, and the value that they spell is written with exactly them.

* `foldlM_tokens` — the tokens of a value bring the parser to the state after the value.
* `Parser.spelled`, `Parser.spelled_step` — the tokens that the parser has consumed are what its
  state stands for.
* `ofTokens?_eq_some_iff` — reading and writing tokens are inverse to each other.
* `parse?_print` — a value that is printed reads back, whatever the layout.
-/

/-! ### From a value to its tokens and back -/

namespace Parser

/-- A value does not start with the end of an array, so an array that has been opened waits for it
    like for any other value. -/
theorem step_afterOpenArray (frames : List Frame) {t : Token} (ht : t ≠ .closeArray) :
    step (.afterOpenArray frames) t = step (.beforeValue (.items [] :: frames)) t := by
  cases t with
  | closeArray => exact absurd rfl ht
  | _ => rfl

end Parser

/-- The first token of a value is not the end of an array. -/
theorem exists_tokens_eq_cons (value : Json) :
    ∃ t rest, value.tokens = t :: rest ∧ t ≠ .closeArray := by
  cases value with
  | array items => cases items <;> exact ⟨_, _, rfl, by simp⟩
  | object members =>
    cases members with
    | nil => exact ⟨_, _, rfl, by simp⟩
    | cons member members => exact ⟨_, _, rfl, by simp⟩
  | _ => exact ⟨_, _, rfl, by simp⟩

/-- The parser goes on from the state that a token leads to. -/
theorem Parser.foldlM_cons {state : Parser} {t : Token} (next : Parser)
    (h : state.step t = some next) (rest : List Token) :
    (t :: rest).foldlM Parser.step state = rest.foldlM Parser.step next := by
  rw [List.foldlM_cons, h, Option.bind_eq_bind, Option.bind_some]

mutual

/-- The tokens of a value bring the parser to the state after the value. -/
theorem foldlM_tokens : ∀ (value : Json) (frames : List Frame) (rest : List Token),
    (value.tokens ++ rest).foldlM Parser.step (.beforeValue frames) =
      (Parser.close value frames).bind fun state => rest.foldlM Parser.step state
  | null, _, _ | bool _, _, _ | number _, _, _ | text _, _, _ => by
    rw [tokens, List.singleton_append, List.foldlM_cons]
    rfl
  | array [], frames, rest => by
    rw [tokens, List.cons_append, Parser.foldlM_cons (.afterOpenArray frames) rfl,
      List.singleton_append, List.foldlM_cons]
    rfl
  | array (item :: items), frames, rest => by
    have hitem := foldlM_tokens item (.items [] :: frames) (moreItems items ++ .closeArray :: rest)
    have hitems := foldlM_moreItems items [item] frames rest
    obtain ⟨t, more, htokens, ht⟩ := exists_tokens_eq_cons item
    -- The first item is read as if a comma had come before it.
    have hopen : (item.tokens ++ (moreItems items ++ .closeArray :: rest)).foldlM Parser.step
        (.afterOpenArray frames) =
          (item.tokens ++ (moreItems items ++ .closeArray :: rest)).foldlM Parser.step
            (.beforeValue (.items [] :: frames)) := by
      rw [htokens, List.cons_append, List.foldlM_cons, List.foldlM_cons,
        Parser.step_afterOpenArray frames ht]
    rw [tokens, List.cons_append, Parser.foldlM_cons (.afterOpenArray frames) rfl,
      List.append_assoc, List.append_assoc, List.singleton_append, hopen, hitem]
    exact hitems
  | object [], frames, rest => by
    rw [tokens, List.cons_append, Parser.foldlM_cons (.afterOpenObject frames) rfl,
      List.singleton_append, List.foldlM_cons]
    rfl
  | object ((name, value) :: members), frames, rest => by
    have hvalue := foldlM_tokens value (.member [] name :: frames)
      (moreMembers members ++ .closeObject :: rest)
    have hmembers := foldlM_moreMembers members [(name, value)] frames rest
    rw [tokens, List.cons_append, List.cons_append, List.cons_append,
      Parser.foldlM_cons (.afterOpenObject frames) rfl,
      Parser.foldlM_cons (.beforeColon [] name frames) rfl,
      Parser.foldlM_cons (.beforeValue (.member [] name :: frames)) rfl,
      List.append_assoc, List.append_assoc, List.singleton_append, hvalue]
    exact hmembers

/-- The items after the first ones, and the end of the array. -/
theorem foldlM_moreItems : ∀ (items done : List Json) (frames : List Frame) (rest : List Token),
    (moreItems items ++ .closeArray :: rest).foldlM Parser.step
        (.afterValue (.items done :: frames)) =
      (Parser.close (array (done.reverse ++ items)) frames).bind fun state =>
        rest.foldlM Parser.step state
  | [], done, frames, rest => by
    rw [moreItems, List.nil_append, List.foldlM_cons, List.append_nil]
    rfl
  | item :: items, done, frames, rest => by
    -- The item joins those that are done, and the induction goes on with one more of them.
    have hitem := foldlM_tokens item (.items done :: frames)
      (moreItems items ++ .closeArray :: rest)
    have hitems := foldlM_moreItems items (item :: done) frames rest
    rw [moreItems, List.cons_append,
      Parser.foldlM_cons (.beforeValue (.items done :: frames)) rfl, List.append_assoc, hitem]
    rw [List.reverse_cons, List.append_assoc, List.singleton_append] at hitems
    exact hitems

/-- The members after the first ones, and the end of the object. -/
theorem foldlM_moreMembers : ∀ (members done : List (List TextUnit × Json)) (frames : List Frame)
    (rest : List Token),
    (moreMembers members ++ .closeObject :: rest).foldlM Parser.step
        (.afterValue (.members done :: frames)) =
      (Parser.close (object (done.reverse ++ members)) frames).bind fun state =>
        rest.foldlM Parser.step state
  | [], done, frames, rest => by
    rw [moreMembers, List.nil_append, List.foldlM_cons, List.append_nil]
    rfl
  | (name, value) :: members, done, frames, rest => by
    -- A member is a name, a colon and a value; only the value is read by induction.
    have hvalue := foldlM_tokens value (.member done name :: frames)
      (moreMembers members ++ .closeObject :: rest)
    have hmembers := foldlM_moreMembers members ((name, value) :: done) frames rest
    rw [moreMembers, List.cons_append, List.cons_append, List.cons_append,
      Parser.foldlM_cons (.beforeName done frames) rfl,
      Parser.foldlM_cons (.beforeColon done name frames) rfl,
      Parser.foldlM_cons (.beforeValue (.member done name :: frames)) rfl,
      List.append_assoc, hvalue]
    rw [List.reverse_cons, List.append_assoc, List.singleton_append] at hmembers
    exact hmembers

end

/-- The tokens of a value spell it. -/
theorem ofTokens?_tokens (value : Json) : ofTokens? value.tokens = some value := by
  have h := foldlM_tokens value [] []
  rw [List.append_nil] at h
  rw [ofTokens?, h]
  rfl

/-! ### What the parser has consumed -/

/-- The items of an array, with a comma between any two. -/
def joinItems : List Json → List Token
  | [] => []
  | item :: items => item.tokens ++ moreItems items

/-- The members of an object, with a comma between any two. -/
def joinMembers : List (List TextUnit × Json) → List Token
  | [] => []
  | (name, value) :: members => .text name :: .colon :: (value.tokens ++ moreMembers members)

/-- The items of an array that is still open, each with the comma after it. -/
def itemsThenComma (items : List Json) : List Token :=
  items.flatMap fun item => item.tokens ++ [.comma]

/-- The members of an object that is still open, each with the comma after it. -/
def membersThenComma (members : List (List TextUnit × Json)) : List Token :=
  members.flatMap fun member => .text member.1 :: .colon :: (member.2.tokens ++ [.comma])

theorem tokens_array (items : List Json) :
    (array items).tokens = .openArray :: (joinItems items ++ [.closeArray]) := by
  cases items <;> simp [tokens, joinItems]

theorem tokens_object (members : List (List TextUnit × Json)) :
    (object members).tokens = .openObject :: (joinMembers members ++ [.closeObject]) := by
  cases members <;> simp [tokens, joinMembers]

/-- Commas after all items but the last are commas between the items. -/
theorem joinItems_snoc (items : List Json) (last : Json) :
    joinItems (items ++ [last]) = itemsThenComma items ++ last.tokens := by
  cases items with
  | nil => simp [joinItems, itemsThenComma, moreItems]
  | cons first items =>
    rw [List.cons_append, joinItems]
    -- Each item becomes the first one of the rest in turn.
    induction items generalizing first with
    | nil => simp [itemsThenComma, moreItems]
    | cons item items ih =>
      have hrest := ih item
      simp only [itemsThenComma, List.flatMap_cons, List.cons_append, moreItems] at hrest ⊢
      rw [hrest]
      simp

theorem joinMembers_snoc (members : List (List TextUnit × Json)) (name : List TextUnit)
    (value : Json) : joinMembers (members ++ [(name, value)]) =
      membersThenComma members ++ .text name :: .colon :: value.tokens := by
  cases members with
  | nil => simp [joinMembers, membersThenComma, moreMembers]
  | cons first members =>
    rw [List.cons_append, joinMembers]
    -- Each member becomes the first one of the rest in turn.
    induction members generalizing first with
    | nil => simp [membersThenComma, moreMembers]
    | cons member members ih =>
      have hrest := ih member
      simp only [membersThenComma, List.flatMap_cons, List.cons_append, moreMembers] at hrest ⊢
      rw [hrest]
      simp

/-- A comma after the last item leaves the array open for another. -/
theorem joinItems_comma {items : List Json} (h : items ≠ []) :
    joinItems items ++ [.comma] = itemsThenComma items := by
  rw [← List.dropLast_append_getLast h, joinItems_snoc]
  simp [itemsThenComma]

theorem joinMembers_comma {members : List (List TextUnit × Json)} (h : members ≠ []) :
    joinMembers members ++ [.comma] = membersThenComma members := by
  obtain ⟨before, ⟨name, value⟩, rfl⟩ := List.eq_nil_or_concat members |>.resolve_left h
  rw [List.concat_eq_append, joinMembers_snoc]
  simp [membersThenComma]

/-- The tokens of an array or object that is still open. -/
def Frame.spelled : Frame → List Token
  | .items done => .openArray :: itemsThenComma done.reverse
  | .members done => .openObject :: membersThenComma done.reverse
  | .member done name => .openObject :: (membersThenComma done.reverse ++ [.text name, .colon])

/-- The tokens of all that is still open. -/
def spelledFrames (frames : List Frame) : List Token := frames.reverse.flatMap Frame.spelled

theorem spelledFrames_cons (frame : Frame) (frames : List Frame) :
    spelledFrames (frame :: frames) = spelledFrames frames ++ frame.spelled := by
  simp [spelledFrames]

namespace Parser

/-- The tokens that a state stands for. -/
def spelled : Parser → List Token
  | .beforeValue frames => spelledFrames frames
  | .afterOpenArray frames => spelledFrames frames ++ [.openArray]
  | .afterOpenObject frames => spelledFrames frames ++ [.openObject]
  | .beforeName done frames => spelledFrames (.members done :: frames)
  | .beforeColon done name frames => spelledFrames (.members done :: frames) ++ [.text name]
  | .afterValue (.items done :: frames) =>
    spelledFrames frames ++ .openArray :: joinItems done.reverse
  | .afterValue (.members done :: frames) =>
    spelledFrames frames ++ .openObject :: joinMembers done.reverse
  | .afterValue _ => []
  | .complete value => value.tokens

/-- After a value there is a value in the innermost array or object. -/
def Sound : Parser → Prop
  | .afterValue (.items done :: _) => done ≠ []
  | .afterValue (.members done :: _) => done ≠ []
  | .afterValue _ => False
  | _ => True

/-- Closing a value consumes its tokens. -/
theorem spelled_close {value : Json} {frames : List Frame} {next : Parser}
    (h : close value frames = some next) :
    next.Sound ∧ next.spelled = spelledFrames frames ++ value.tokens := by
  cases frames with
  | nil =>
    obtain rfl := Option.some.inj h
    exact ⟨trivial, rfl⟩
  | cons frame frames =>
    cases frame with
    | items done =>
      obtain rfl := Option.some.inj h
      refine ⟨List.cons_ne_nil _ _, ?_⟩
      rw [spelled, List.reverse_cons, joinItems_snoc, spelledFrames_cons, Frame.spelled]
      simp
    | members done => simp [close] at h
    | member done name =>
      obtain rfl := Option.some.inj h
      refine ⟨List.cons_ne_nil _ _, ?_⟩
      rw [spelled, List.reverse_cons, joinMembers_snoc, spelledFrames_cons, Frame.spelled]
      simp

/-- Entering a value consumes its first token. -/
theorem spelled_enter {frames : List Frame} {t : Token} {next : Parser}
    (h : enter frames t = some next) :
    next.Sound ∧ next.spelled = spelledFrames frames ++ [t] := by
  cases t with
  | null | bool _ | number _ | text _ => exact spelled_close h
  | openArray | openObject =>
    obtain rfl := Option.some.inj h
    exact ⟨trivial, rfl⟩
  | closeArray | closeObject | comma | colon => simp [enter] at h

/-- **Each step consumes exactly the token that it reads.** -/
theorem spelled_step {state next : Parser} {t : Token} (hs : state.Sound)
    (h : state.step t = some next) : next.Sound ∧ next.spelled = state.spelled ++ [t] := by
  unfold step at h
  -- The cases are those of the step itself, in its order: values first, then what is between them.
  split at h
  · exact spelled_enter h
  · obtain ⟨hsound, hspelled⟩ := spelled_close h
    refine ⟨hsound, ?_⟩
    rw [hspelled, spelled, tokens]
    simp
  · obtain ⟨hsound, hspelled⟩ := spelled_enter h
    refine ⟨hsound, ?_⟩
    rw [hspelled, spelledFrames_cons, spelled]
    simp [Frame.spelled, itemsThenComma]
  · obtain ⟨hsound, hspelled⟩ := spelled_close h
    refine ⟨hsound, ?_⟩
    rw [hspelled, spelled, tokens]
    simp
  · obtain rfl := Option.some.inj h
    refine ⟨trivial, ?_⟩
    simp [spelled, spelledFrames_cons, Frame.spelled, membersThenComma]
  · obtain rfl := Option.some.inj h
    exact ⟨trivial, rfl⟩
  · obtain rfl := Option.some.inj h
    refine ⟨trivial, ?_⟩
    simp [spelled, spelledFrames_cons, Frame.spelled]
  · rename_i done frames
    obtain rfl := Option.some.inj h
    refine ⟨trivial, ?_⟩
    have hcomma := joinItems_comma (List.reverse_ne_nil_iff.mpr hs)
    simp [spelled, spelledFrames_cons, Frame.spelled, ← hcomma]
  · obtain ⟨hsound, hspelled⟩ := spelled_close h
    refine ⟨hsound, ?_⟩
    rw [hspelled, tokens_array, spelled]
    simp
  · rename_i done frames
    obtain rfl := Option.some.inj h
    refine ⟨trivial, ?_⟩
    have hcomma := joinMembers_comma (List.reverse_ne_nil_iff.mpr hs)
    simp [spelled, spelledFrames_cons, Frame.spelled, ← hcomma]
  · obtain ⟨hsound, hspelled⟩ := spelled_close h
    refine ⟨hsound, ?_⟩
    rw [hspelled, tokens_object, spelled]
    simp
  · simp at h

/-- What a run has consumed is what its last state stands for. -/
theorem spelled_foldlM {state last : Parser} {read : List Token} (hs : state.Sound)
    (h : read.foldlM step state = some last) :
    last.Sound ∧ last.spelled = state.spelled ++ read := by
  -- Soundness is kept along, since only a sound state knows what it has consumed.
  induction read generalizing state with
  | nil =>
    obtain rfl := Option.some.inj h
    simpa using hs
  | cons t rest ih =>
    rw [List.foldlM_cons, Option.bind_eq_bind, Option.bind_eq_some_iff] at h
    obtain ⟨next, hstep, hrest⟩ := h
    obtain ⟨hsound, hspelled⟩ := spelled_step hs hstep
    obtain ⟨hlast, hread⟩ := ih hsound hrest
    refine ⟨hlast, ?_⟩
    rw [hread, hspelled, List.append_assoc, List.singleton_append]

end Parser

/-- Tokens spell a value exactly if they are the tokens of the value. -/
theorem ofTokens?_eq_some_iff {read : List Token} {value : Json} :
    ofTokens? read = some value ↔ value.tokens = read := by
  constructor
  · intro h
    -- What a complete state has consumed are the tokens of its value.
    unfold ofTokens? at h
    split at h
    · rename_i last hrun
      obtain rfl := Option.some.inj h
      have hsound : Parser.Sound (.beforeValue []) := trivial
      have hspelled := (Parser.spelled_foldlM hsound hrun).2
      simpa [Parser.spelled, spelledFrames] using hspelled
    · simp at h
  · rintro rfl
    exact ofTokens?_tokens value

/-! ### Printing and parsing -/

/-- A punctuation mark can stand before anything. -/
theorem isChain_punctuation {t : Token} {rest : List Token} (ht : t.isPunctuation = true)
    (h : rest.IsChain Token.Parted) : (t :: rest).IsChain Token.Parted :=
  List.isChain_cons.mpr ⟨fun _ _ => .inl ht, h⟩

/-- Anything can stand before a punctuation mark. -/
theorem isChain_before_punctuation {t : Token} {rest : List Token}
    (hrest : ∀ u ∈ rest.head?, u.isPunctuation = true) (h : rest.IsChain Token.Parted) :
    (t :: rest).IsChain Token.Parted :=
  List.isChain_cons.mpr ⟨fun u hu => .inr (hrest u hu), h⟩

mutual

/-- The tokens of a value are parted, also from a punctuation mark after them. -/
theorem isChain_tokens : ∀ (value : Json) {rest : List Token},
    (∀ u ∈ rest.head?, u.isPunctuation = true) → rest.IsChain Token.Parted →
      (value.tokens ++ rest).IsChain Token.Parted
  | null, _, hhead, hrest | bool _, _, hhead, hrest | number _, _, hhead, hrest
  | text _, _, hhead, hrest => by
    rw [tokens, List.singleton_append]
    exact isChain_before_punctuation hhead hrest
  | array [], _, _, hrest => isChain_punctuation rfl (isChain_punctuation rfl hrest)
  | array (item :: items), rest, _, hrest => by
    rw [tokens, List.cons_append, List.append_assoc, List.append_assoc]
    -- The tokens after the first item start with a comma or with the end of the array.
    obtain ⟨hhead, hmore⟩ := isChain_moreItems items
      (isChain_punctuation (t := .closeArray) rfl hrest) (by simp [Token.isPunctuation])
    exact isChain_punctuation rfl (isChain_tokens item hhead hmore)
  | object [], _, _, hrest => isChain_punctuation rfl (isChain_punctuation rfl hrest)
  | object ((name, value) :: members), rest, _, hrest => by
    rw [tokens, List.cons_append, List.cons_append, List.cons_append, List.append_assoc,
      List.append_assoc]
    obtain ⟨hhead, hmore⟩ := isChain_moreMembers members
      (isChain_punctuation (t := .closeObject) rfl hrest) (by simp [Token.isPunctuation])
    have hvalue := isChain_punctuation (t := .colon) rfl (isChain_tokens value hhead hmore)
    exact isChain_punctuation rfl
      (isChain_before_punctuation (by simp [Token.isPunctuation]) hvalue)

theorem isChain_moreItems : ∀ (items : List Json) {rest : List Token},
    rest.IsChain Token.Parted → (∀ u ∈ rest.head?, u.isPunctuation = true) →
      (∀ u ∈ (moreItems items ++ rest).head?, u.isPunctuation = true) ∧
        (moreItems items ++ rest).IsChain Token.Parted
  | [], _, hrest, hhead => ⟨hhead, hrest⟩
  | item :: items, rest, hrest, hhead => by
    obtain ⟨hhead', hmore⟩ := isChain_moreItems items hrest hhead
    rw [moreItems, List.cons_append, List.append_assoc]
    exact ⟨by simp [Token.isPunctuation],
      isChain_punctuation rfl (isChain_tokens item hhead' hmore)⟩

theorem isChain_moreMembers : ∀ (members : List (List TextUnit × Json)) {rest : List Token},
    rest.IsChain Token.Parted → (∀ u ∈ rest.head?, u.isPunctuation = true) →
      (∀ u ∈ (moreMembers members ++ rest).head?, u.isPunctuation = true) ∧
        (moreMembers members ++ rest).IsChain Token.Parted
  | [], _, hrest, hhead => ⟨hhead, hrest⟩
  | (name, value) :: members, rest, hrest, hhead => by
    obtain ⟨hhead', hmore⟩ := isChain_moreMembers members hrest hhead
    rw [moreMembers, List.cons_append, List.cons_append, List.cons_append, List.append_assoc]
    have hvalue := isChain_punctuation (t := .colon) rfl (isChain_tokens value hhead' hmore)
    exact ⟨by simp [Token.isPunctuation], isChain_punctuation rfl
      (isChain_before_punctuation (by simp [Token.isPunctuation]) hvalue)⟩

end

/-- A value that can be written as a JSON text. -/
def Readable (value : Json) : Prop := ∀ t ∈ value.tokens, t.Readable

/-- **A value that is printed reads back**, whatever the layout. -/
theorem parse?_print (layout : Layout) {value : Json} (h : value.Readable) :
    parse? (value.print layout) = some value := by
  have hchain : value.tokens.IsChain Token.Parted := by
    have hchain : (value.tokens ++ []).IsChain Token.Parted := isChain_tokens value (by simp) .nil
    rwa [List.append_nil] at hchain
  rw [parse?, print, Token.read?_write layout h hchain]
  exact ofTokens?_tokens value

end Lockbox.Json
