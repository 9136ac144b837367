import LuaSyntax.Proofs.Text.Growth
import LuaSyntax.Text.Pieces

/-!
# Rows of pieces in a growing text

Blanks, comments and the content of a string are read as rows of pieces. A row that stops before the
end of the text is the same row in every longer text, provided that each of its pieces is: a piece
that ended before the end must not have been cut short by the end. That is `Firm`, and it is all that
a reader of pieces has to show.
-/

namespace LuaSyntax

variable {α ε : Type} {piece : Text → Piece α ε} {text more : Text} {skip : Nat}

/-- A piece that ends before the end of the text is not longer in a longer text. -/
def Piece.Firm (piece : Text → Piece α ε) (more : Text) : Prop :=
  ∀ ⦃text value length⦄, piece text = .item value length → length < text.length →
    piece (text ++ more) = .item value length

/-- No pieces cover nothing. -/
@[simp] theorem Pieces.covered_none : (Pieces.none : Pieces α ε).covered = [] := rfl

@[simp] theorem Pieces.found_none : (Pieces.none : Pieces α ε).found = [] := rfl

/-- A piece in front covers its text and what the others cover. -/
@[simp] theorem Pieces.covered_cons (text : Text) (value : α) (pieces : Pieces α ε) :
    (pieces.cons text value).covered = text ++ pieces.covered := rfl

@[simp] theorem Pieces.failure_none : (Pieces.none : Pieces α ε).failure = Option.none := rfl

/-- A piece in front does not change the failure. -/
@[simp] theorem Pieces.failure_cons (text : Text) (value : α) (pieces : Pieces α ε) :
    (pieces.cons text value).failure = pieces.failure := rfl

/-- What is left behind a row is left behind its first piece by the others. -/
theorem drop_first_piece (c : Char) {text covered : Text} {length : Nat}
    (h : length - 1 ≤ text.length) :
    (c :: text).drop (0 + (c :: text.take (length - 1) ++ covered).length) =
      text.drop (length - 1 + covered.length) := by
  rw [List.length_append, List.length_cons, List.length_take, Nat.min_eq_left h,
    show 0 + (length - 1 + 1 + covered.length) = length - 1 + covered.length + 1 by omega,
    List.drop_succ_cons]

/-- Behind the end of a text there are no pieces. -/
theorem pieces_of_length_le (h : text.length ≤ skip) : pieces piece skip text = .none := by
  induction text generalizing skip with
  | nil => cases skip <;> rfl
  | cons c text ih =>
    cases skip with
    | zero => simp at h
    | succ skip => exact ih (by simpa using h)

/-- A row that no piece spoils goes up to the end or to something that is no piece. -/
theorem piece_of_pieces (h : (pieces piece skip text).failure = none) :
    text.drop (skip + (pieces piece skip text).covered.length) = [] ∨
      piece (text.drop (skip + (pieces piece skip text).covered.length)) = .stop := by
  induction text generalizing skip with
  | nil => exact .inl List.drop_nil
  | cons c text ih =>
    cases skip with
    | succ skip =>
      rw [pieces] at h ⊢
      rw [Nat.add_right_comm, List.drop_succ_cons]
      exact ih h
    | zero =>
      rw [pieces] at h ⊢
      cases hp : piece (c :: text) with
      | stop => exact .inr hp
      | fail error => simp [hp] at h
      | item value length =>
        simp only [hp, Pieces.failure_cons, Pieces.covered_cons] at h ⊢
        rcases Nat.lt_or_ge (length - 1) text.length with hl | hl
        · rw [drop_first_piece c hl.le]
          exact ih h
        · refine .inl (List.drop_eq_nil_of_le ?_)
          rw [List.length_append, List.length_cons, List.length_cons, List.length_take]
          omega

/-- A row that is spoilt goes up to the piece that spoils it. -/
theorem piece_of_failure {error : ε} (h : (pieces piece skip text).failure = some error) :
    piece (text.drop (skip + (pieces piece skip text).covered.length)) = .fail error := by
  induction text generalizing skip with
  | nil => cases skip <;> cases h
  | cons c text ih =>
    cases skip with
    | succ skip =>
      rw [pieces] at h ⊢
      rw [Nat.add_right_comm, List.drop_succ_cons]
      exact ih h
    | zero =>
      rw [pieces] at h ⊢
      cases hp : piece (c :: text) with
      | stop => simp [hp] at h
      | fail error' =>
        obtain rfl : error' = error := by simpa [hp] using h
        exact hp
      | item value length =>
        simp only [hp, Pieces.failure_cons, Pieces.covered_cons] at h ⊢
        rcases Nat.lt_or_ge text.length (length - 1) with hl | hl
        · rw [pieces_of_length_le hl.le] at h
          cases h
        · rw [drop_first_piece c hl]
          exact ih h

/-- A row of firm pieces that stops before the end is the same row in a longer text. -/
theorem pieces_append (firm : Piece.Firm piece more)
    (hnone : (pieces piece skip text).failure = none)
    (hrest : text.drop (skip + (pieces piece skip text).covered.length) ≠ [])
    (hstop : piece (text.drop (skip + (pieces piece skip text).covered.length) ++ more) = .stop) :
    pieces piece skip (text ++ more) = pieces piece skip text := by
  induction text generalizing skip with
  | nil => simp at hrest
  | cons c text ih =>
    cases skip with
    | succ skip =>
      rw [pieces] at hnone hrest hstop
      rw [Nat.add_right_comm, List.drop_succ_cons] at hrest hstop
      rw [List.cons_append, pieces, pieces]
      exact ih hnone hrest hstop
    | zero =>
      rw [pieces] at hnone hrest hstop
      rw [List.cons_append, pieces, pieces]
      cases hp : piece (c :: text) with
      | stop =>
        simp only [hp, Pieces.covered_none, List.length_nil, Nat.add_zero, List.drop_zero,
          List.cons_append] at hstop
        rw [hstop]
      | fail error => simp [hp] at hnone
      | item value length =>
        simp only [hp, Pieces.failure_cons, Pieces.covered_cons] at hnone hrest hstop
        -- something is left behind the row, so this piece ends before the end
        have hl : length - 1 < text.length := by
          have := List.length_pos_iff.mpr hrest
          rw [List.length_drop, List.length_append, List.length_cons, List.length_cons,
            List.length_take] at this
          omega
        rw [drop_first_piece c hl.le] at hrest hstop
        have hfirm := firm hp (by rw [List.length_cons]; omega)
        rw [List.cons_append] at hfirm
        simp only [hfirm]
        rw [ih hnone hrest hstop, List.take_append_of_le_length hl.le]

/-- A row begins before the end if a piece of it spoils it. -/
theorem skip_lt_of_failure {error : ε} (h : (pieces piece skip text).failure = some error) :
    skip < text.length := by
  induction text generalizing skip with
  | nil => simp [pieces] at h
  | cons c text ih =>
    cases skip with
    | zero => simp
    | succ skip =>
      rw [pieces] at h
      simpa using ih h

/-- A row of firm pieces that is spoilt for good is spoilt in a longer text. -/
theorem failure_append (firm : Piece.Firm piece more) {error : ε}
    (hspoilt : ∀ ⦃text⦄, piece text = .fail error → ∃ error', piece (text ++ more) = .fail error')
    (h : (pieces piece skip text).failure = some error) :
    ∃ error', (pieces piece skip (text ++ more)).failure = some error' := by
  induction text generalizing skip with
  | nil => simp [pieces] at h
  | cons c text ih =>
    cases skip with
    | succ skip =>
      rw [pieces] at h
      rw [List.cons_append, pieces]
      exact ih h
    | zero =>
      rw [pieces] at h
      rw [List.cons_append, pieces]
      cases hp : piece (c :: text) with
      | stop => simp [hp] at h
      | fail error' =>
        obtain rfl : error' = error := by simpa [hp] using h
        obtain ⟨later, hlater⟩ := hspoilt hp
        rw [List.cons_append] at hlater
        exact ⟨later, by rw [hlater]⟩
      | item value length =>
        simp only [hp, Pieces.failure_cons] at h
        have hl := skip_lt_of_failure h
        have hfirm := firm hp (by rw [List.length_cons]; omega)
        rw [List.cons_append] at hfirm
        simp only [hfirm, Pieces.failure_cons]
        exact ih h

end LuaSyntax
