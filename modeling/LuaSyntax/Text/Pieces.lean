import LuaSyntax.Text.Basic

/-!
# Reading a text in pieces

Much of a source is a row of pieces that are recognised one after the other from their front: the
blanks and comments between tokens, the characters and escapes of a quoted string. `pieces` reads
such a row given the reader of one piece. It recurs on the text itself and counts off the characters
that the piece just read has covered, so it needs no bound and no argument that pieces are not
empty: a piece covers at least the character it was read at.

## What is proved

`pieces_covered`: what the pieces cover is the front of the text, with nothing left out.
-/

namespace LuaSyntax

/-- What a reader of one piece finds at the front of a text. -/
inductive Piece (α ε : Type) where
  /-- A piece of that many characters. -/
  | item (value : α) (length : Nat)
  /-- No piece. -/
  | stop
  /-- The beginning of a piece that cannot be finished. -/
  | fail (error : ε)

/-- The pieces read from a text, each with the text it covers, and what ended the reading early. -/
structure Pieces (α ε : Type) where
  found : List (Text × α)
  failure : Option ε

namespace Pieces

variable {α ε : Type}

/-- No pieces. -/
def none : Pieces α ε := ⟨[], Option.none⟩

/-- The pieces behind one more. -/
def cons (text : Text) (value : α) (pieces : Pieces α ε) : Pieces α ε :=
  ⟨(text, value) :: pieces.found, pieces.failure⟩

/-- All the text that the pieces cover. -/
def covered (pieces : Pieces α ε) : Text := (pieces.found.map Prod.fst).flatten

/-- The values of the pieces. -/
def values (pieces : Pieces α ε) : List α := pieces.found.map Prod.snd

end Pieces

/-- Reads pieces from a text whose first `skip` characters are covered already. -/
def pieces {α ε : Type} (piece : Text → Piece α ε) : Nat → Text → Pieces α ε
  | _, [] => .none
  | skip + 1, _ :: rest => pieces piece skip rest
  | 0, c :: rest =>
    match piece (c :: rest) with
    | .stop => .none
    | .fail error => ⟨[], some error⟩
    | .item value length =>
      (pieces piece (length - 1) rest).cons (c :: rest.take (length - 1)) value

/-- Pieces cover the front of the text. -/
theorem pieces_covered {α ε : Type} (piece : Text → Piece α ε) (skip : Nat) (text : Text) :
    (pieces piece skip text).covered <+: text.drop skip := by
  induction text generalizing skip with
  | nil => cases skip <;> simp [pieces, Pieces.covered, Pieces.none]
  | cons c rest ih =>
    cases skip with
    | succ skip => simpa [pieces] using ih skip
    | zero =>
      simp only [pieces, List.drop_zero]
      split
      · simp [Pieces.covered, Pieces.none]
      · simp [Pieces.covered]
      · next value length _ =>
        obtain ⟨after, h⟩ := ih (length - 1)
        refine ⟨after, ?_⟩
        simp only [Pieces.covered, Pieces.cons, List.map_cons, List.flatten_cons,
          List.cons_append, List.append_assoc] at h ⊢
        rw [h, List.take_append_drop]

end LuaSyntax
