namespace Lockbox

/-!
# Texts in pieces

A text, or what else is written down in a row, is cut at every occurrence of a separator: a path into
its segments, a file into its lines.

* `pieces` — what stands before, between and after the separators.
* `pieces_ne_nil` — there is always at least one piece.
* `pieces_append_cons` — a separator ends the piece before it.
* `pieces_append` — a text can be cut at any of its separators first.
* `pieces_intercalate` — pieces that have been put together are found again.
* `notMem_of_mem_pieces` — no piece has a separator in it.
-/

variable {α : Type} [DecidableEq α]

/-- Cuts character by character.  Both the pieces and the piece that has been begun are kept last
    first. -/
def piecesOnto (separator : α) (done : List (List α)) (piece : List α) :
    List α → List (List α)
  | [] => (piece.reverse :: done).reverse
  | c :: rest =>
    if c = separator then piecesOnto separator (piece.reverse :: done) [] rest
    else piecesOnto separator done (c :: piece) rest

/-- What stands before, between and after the separators. -/
def pieces (separator : α) (text : List α) : List (List α) :=
  piecesOnto separator [] [] text

variable {separator : α}

theorem piecesOnto_done (done : List (List α)) (piece text : List α) :
    piecesOnto separator done piece text = done.reverse ++ piecesOnto separator [] piece text := by
  induction text generalizing done piece with
  | nil => simp [piecesOnto]
  | cons c text ih =>
    unfold piecesOnto
    split
    · rw [ih (piece.reverse :: done), ih [piece.reverse]]; simp
    · exact ih done (c :: piece)

theorem piecesOnto_of_notMem (piece : List α) {text : List α} (h : separator ∉ text) :
    piecesOnto separator [] piece text = [piece.reverse ++ text] := by
  induction text generalizing piece with
  | nil => simp [piecesOnto]
  | cons c text ih =>
    obtain ⟨hc, ht⟩ : separator ≠ c ∧ separator ∉ text := by simpa using h
    rw [piecesOnto, if_neg (Ne.symm hc), ih (c :: piece) ht]
    simp

/-- A text without separators is one piece. -/
theorem pieces_of_notMem {text : List α} (h : separator ∉ text) :
    pieces separator text = [text] := by
  simpa [pieces] using piecesOnto_of_notMem [] h

theorem piecesOnto_append_cons (piece : List α) {text : List α} (h : separator ∉ text)
    (rest : List α) :
    piecesOnto separator [] piece (text ++ separator :: rest) =
      (piece.reverse ++ text) :: pieces separator rest := by
  induction text generalizing piece with
  | nil => rw [List.nil_append, piecesOnto, if_pos rfl, piecesOnto_done]; simp [pieces]
  | cons c text ih =>
    obtain ⟨hc, ht⟩ : separator ≠ c ∧ separator ∉ text := by simpa using h
    rw [List.cons_append, piecesOnto, if_neg (Ne.symm hc), ih (c :: piece) ht]
    simp

/-- A separator ends the piece before it. -/
theorem pieces_append_cons {text : List α} (h : separator ∉ text) (rest : List α) :
    pieces separator (text ++ separator :: rest) = text :: pieces separator rest := by
  simpa [pieces] using piecesOnto_append_cons [] h rest

/-- Pieces that have been put together with separators between them are found again. -/
theorem pieces_intercalate {parts : List (List α)} (hne : parts ≠ [])
    (h : ∀ part ∈ parts, separator ∉ part) :
    pieces separator ([separator].intercalate parts) = parts := by
  induction parts with
  | nil => exact absurd rfl hne
  | cons first rest ih =>
    obtain ⟨hfirst, hrest⟩ := List.forall_mem_cons.mp h
    cases rest with
    | nil => rw [List.intercalate_singleton, pieces_of_notMem hfirst]
    | cons second rest =>
      rw [List.intercalate_cons_cons, List.append_assoc, List.singleton_append,
        pieces_append_cons hfirst, ih (List.cons_ne_nil _ _) hrest]

/-- There is always at least one piece. -/
theorem pieces_ne_nil (text : List α) : pieces separator text ≠ [] := by
  suffices ∀ (done : List (List α)) (piece : List α),
      piecesOnto separator done piece text ≠ [] from this [] []
  induction text with
  | nil => intro done piece; simp [piecesOnto]
  | cons c text ih =>
    intro done piece
    unfold piecesOnto
    split
    · exact ih _ _
    · exact ih _ _

/-- No piece has a separator in it. -/
theorem notMem_of_mem_pieces {text part : List α} (h : part ∈ pieces separator text) :
    separator ∉ part := by
  suffices ∀ (done : List (List α)) (piece : List α), (∀ part ∈ done, separator ∉ part) →
      separator ∉ piece → ∀ part ∈ piecesOnto separator done piece text, separator ∉ part from
    this [] [] (by simp) (by simp) part h
  clear h
  induction text with
  | nil =>
    intro done piece hdone hpiece part hpart
    rw [piecesOnto, List.mem_reverse] at hpart
    rcases List.mem_cons.mp hpart with rfl | hpart
    · rwa [List.mem_reverse]
    · exact hdone part hpart
  | cons c text ih =>
    intro done piece hdone hpiece
    unfold piecesOnto
    split
    · refine ih _ _ (fun part hpart => ?_) List.not_mem_nil
      rcases List.mem_cons.mp hpart with rfl | hpart
      · rwa [List.mem_reverse]
      · exact hdone part hpart
    · rename_i hc
      exact ih _ _ hdone (List.not_mem_cons_of_ne_of_not_mem (Ne.symm hc) hpiece)

end Lockbox
