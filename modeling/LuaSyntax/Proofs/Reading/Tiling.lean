import LuaSyntax.Proofs.Reading.Breaks.Strings
import LuaSyntax.Proofs.Reading.Deliveries

/-!
# Tokens and comments tile a source

Nothing of a source is lost and nothing is read twice. The tokens and the comments stand one behind the
other in the order in which they are delivered, each as it is written, and all that is between them is
blanks and line breaks. Only a first line that names an interpreter is passed over.

`Tiled` is that statement for any row of pieces of a source. It is proved from the end of the source
backwards: a token, and the blanks and comments before it, are put in front of what is tiled already.
-/

namespace LuaSyntax

/-! ## Tiles -/

/-- A piece of a source: its text, and the span at which it is said to stand, if that is recorded. -/
structure Tile where
  raw : Text
  span? : Option Span

/-- The piece of a source that a token is. -/
def Token.tile (token : Token) : Tile := ⟨token.lexeme.toList, some token.span⟩

/-- The piece of a source that a comment is. -/
def Comment.tile (comment : Comment) : Tile := ⟨comment.raw.toList, comment.placement.range⟩

/-- The pieces of a source that a delivery brings: the comments before its token, and the token. -/
def Delivery.tiles (delivery : Delivery) : List Tile :=
  delivery.comments.map Comment.tile ++ [delivery.token.tile]

/-- Whether a character is a blank or ends a line. -/
def Text.isSpace (c : Char) : Bool := isBlank c || isLineEnd c

/-- Whether some pieces are a text that begins at an offset, one behind the other and each where it is
said to stand, but for spaces between them and at both ends. -/
def Tiled : Nat → List Tile → Text → Prop
  | _, [], text => ∀ c ∈ text, Text.isSpace c = true
  | offset, tile :: others, text =>
    ∃ gap behind, text = gap ++ (tile.raw ++ behind) ∧ (∀ c ∈ gap, Text.isSpace c = true) ∧
      (∀ span ∈ tile.span?, span =
        ⟨offset + Text.size gap, offset + Text.size gap + Text.size tile.raw⟩) ∧
      Tiled (offset + Text.size gap + Text.size tile.raw) others behind

/-- The first line of a source, without its line break, if it names an interpreter. -/
def Text.interpreterLine (source : Text) : Text :=
  if source.take 2 = ['#', '!'] then Trivium.restOfLine source else []

variable {options : ParseOptions} {source text behind gap : Text} {offset : Nat} {tiles : List Tile}

/-- Spaces in front of what is tiled make the first gap longer. -/
theorem Tiled.space (h : Tiled (offset + Text.size gap) tiles text)
    (hgap : ∀ c ∈ gap, Text.isSpace c = true) : Tiled offset tiles (gap ++ text) := by
  cases tiles with
  | nil => exact List.forall_mem_append.mpr ⟨hgap, h⟩
  | cons tile others =>
    obtain ⟨gap', behind, rfl, hgap', hspan, hothers⟩ := h
    rw [Nat.add_assoc offset, ← Text.size_append] at hspan hothers
    exact ⟨gap ++ gap', behind, (List.append_assoc _ _ _).symm,
      List.forall_mem_append.mpr ⟨hgap, hgap'⟩, hspan, hothers⟩

/-- A piece in front of what is tiled is one more tile. -/
theorem Tiled.cons {tile : Tile} {raw : Text} (h : Tiled (offset + Text.size raw) tiles text)
    (hraw : tile.raw = raw)
    (hspan : ∀ span ∈ tile.span?, span = ⟨offset, offset + Text.size raw⟩) :
    Tiled offset (tile :: tiles) (raw ++ text) := by
  subst hraw
  exact ⟨[], text, rfl, List.forall_mem_nil _, hspan, h⟩

/-! ## Between tokens -/

/-- What holds of every piece that can be read holds of all in a row. -/
theorem forall_found {α ε : Type} {piece : Text → Piece α ε} {known : Text × α → Prop}
    (h : ∀ c rest value length, piece (c :: rest) = .item value length →
      known (c :: rest.take (length - 1), value)) (skip : Nat) (text : Text) :
    ∀ found ∈ (pieces piece skip text).found, known found := by
  induction text generalizing skip with
  | nil => cases skip <;> exact List.forall_mem_nil _
  | cons c rest ih =>
    cases skip with
    | succ skip => exact ih skip
    | zero =>
      rw [pieces]
      cases hp : piece (c :: rest) with
      | stop => exact List.forall_mem_nil _
      | fail error => exact List.forall_mem_nil _
      | item value length => exact List.forall_mem_cons.mpr ⟨h c rest value length hp, ih _⟩

namespace Trivium

/-- Whether a piece between two tokens is a comment or consists of spaces. -/
def Spaced (found : Text × Trivium) : Prop :=
  found.2 = .blank → ∀ c ∈ found.1, Text.isSpace c = true

/-- What makes up a line break ends a line. -/
theorem isLineEnd_of_lineBreak (text : Text) :
    ∀ c ∈ text.take (Text.lineBreak text), Text.isLineEnd c = true := by
  rcases text with _ | ⟨c, _ | ⟨d, rest⟩⟩
  · exact List.forall_mem_nil _
  · rw [Text.lineBreak]
    split
    · next hend => exact List.forall_mem_singleton.mpr hend
    · exact List.forall_mem_nil _
  · rw [Text.lineBreak]
    split
    · next hend =>
      split
      · next hpair =>
        have hsecond := (Bool.and_eq_true_iff.mp hpair).1
        exact List.forall_mem_cons.mpr ⟨hend, List.forall_mem_singleton.mpr hsecond⟩
      · exact List.forall_mem_singleton.mpr hend
    · exact List.forall_mem_nil _

/-- No comment is a blank. -/
theorem ne_blank_of_comment? {body : Text} {value : Trivium} {length : Nat}
    (h : comment? body = .item value length) : value ≠ .blank := by
  rw [comment?] at h
  split at h <;> cases h <;> exact Trivium.noConfusion

/-- A piece between two tokens is a comment or consists of spaces. -/
theorem spaced_of_piece (c : Char) (rest : Text) (value : Trivium) (length : Nat)
    (h : piece (c :: rest) = .item value length) : Spaced (c :: rest.take (length - 1), value) := by
  rw [piece] at h
  split at h
  · next hblank =>
    cases h
    intro _ d hd
    obtain rfl := List.mem_singleton.mp hd
    rw [Text.isSpace, hblank, Bool.true_or]
  · split at h
    · next hend =>
      cases h
      intro _ d hd
      have hbreak := isLineEnd_of_lineBreak (c :: rest)
      obtain ⟨count, hcount⟩ := Nat.exists_eq_succ_of_ne_zero
        (Nat.pos_iff_ne_zero.mp (Text.lineBreak_pos hend rest))
      rw [hcount] at hd hbreak
      rw [Text.isSpace, hbreak d hd, Bool.or_true]
    · split at h
      · exact fun hblank => absurd hblank (ne_blank_of_comment? h)
      · cases h

end Trivium

namespace Trivia

/-- Comments and spaces in front of what is tiled are tiled as well. -/
theorem tiled_collect (options : ParseOptions) (source : Text) {row : List (Text × Trivium)}
    (hrow : ∀ found ∈ row, Trivium.Spaced found) {place : Place}
    (h : Tiled (collect options source place row).2.offset tiles behind) :
    Tiled place.offset ((collect options source place row).1.map Comment.tile ++ tiles)
      ((row.map Prod.fst).flatten ++ behind) := by
  induction row generalizing place with
  | nil => exact h
  | cons first others ih =>
    obtain ⟨text, trivium⟩ := first
    obtain ⟨hfirst, hothers⟩ := List.forall_mem_cons.mp hrow
    rw [List.map_cons, List.flatten_cons, List.append_assoc]
    cases trivium with
    | blank =>
      have hrest := ih hothers h
      rw [Place.offset_after] at hrest
      exact hrest.space (hfirst rfl)
    | comment value =>
      have hrest := ih hothers h
      rw [Place.offset_after] at hrest
      refine hrest.cons (String.toList_ofList ..) fun span hspan => ?_
      simp only [Comment.tile, Placement.between, Option.mem_def, Option.ite_none_right_eq_some,
        Option.some.injEq, Place.offset_after] at hspan
      exact hspan.2.symm

/-- What stands before a token is tiled by its comments. -/
theorem tiled_read {place : Place} (hcollect : options.collectComments = true)
    (h : Tiled (read options source place text).stop.offset tiles (Trivia.behind text)) :
    Tiled place.offset ((read options source place text).comments.map Comment.tile ++ tiles) text := by
  have hcollected := tiled_collect options source
    (forall_found Trivium.spaced_of_piece 0 text) h
  rw [← Pieces.covered, covered_append_behind] at hcollected
  simpa only [read, hcollect, if_true] using hcollected

end Trivia

/-! ## Token by token -/

namespace Lexer

variable {lexer after last : Lexer} {token : Token} {deliveries : List Delivery}

/-- A delivery in front of what is tiled is tiled by its comments and its token. -/
theorem tiled_next (hcollect : lexer.options.collectComments = true) (hcomments : lexer.comments = [])
    (hrest : lexer.rest = some text) (hn : lexer.next = (.ok token, after))
    (h : ∀ rest, after.rest = some rest → Tiled after.place.offset tiles rest) :
    Tiled lexer.place.offset ((⟨token, after.comments⟩ : Delivery).tiles ++ tiles) text := by
  obtain ⟨-, value, length, -, rfl, rfl⟩ := (next_eq_ok hrest).mp hn
  have hafter := h _ rfl
  have hlexeme := List.take_append_drop length (Trivia.behind text)
  rw [Delivery.tiles, behind, hcomments, List.nil_append, List.append_assoc, trivia]
  refine Trivia.tiled_read hcollect ?_
  rw [← hlexeme]
  rw [behind, Place.offset_after] at hafter
  refine hafter.cons (String.toList_ofList ..) fun span hspan => ?_
  obtain rfl := Option.some.inj hspan
  rw [Token.span, tokenOf, Place.offset_after]

/-- What was read up to some point tiles the source up to there. -/
theorem Reads.tiled (h : Reads lexer deliveries last) (hl : lexer.Sited text)
    (hcollect : lexer.options.collectComments = true) (hcomments : lexer.comments = [])
    (hlast : ∀ rest, last.rest = some rest → Tiled last.place.offset tiles rest) :
    Tiled lexer.place.offset (deliveries.flatMap Delivery.tiles ++ tiles) text := by
  induction h generalizing text with
  | none => exact hlast text hl.rest_eq
  | one hnext hend _ ih =>
    obtain ⟨rest, hrest, -⟩ := hl.next hnext hend
    have hoptions := options_next hl.rest_eq hnext
    rw [List.flatMap_cons, List.append_assoc]
    refine tiled_next hcollect hcomments hl.rest_eq hnext fun rest' hrest' => ?_
    obtain rfl := Option.some.inj (hrest.rest_eq.symm.trans hrest')
    exact ih hrest.drain (hoptions.symm ▸ hcollect) rfl hlast

end Lexer

end LuaSyntax
