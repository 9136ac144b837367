import LuaSyntax.Proofs.Reading.Pieces
import LuaSyntax.Token.Trivia

/-!
# Long brackets and comments in a growing text

A long bracket that was closed stays what it is. That there is no long bracket at all is certain as
soon as there is a character behind the equals signs that might belong to an opener. A line comment
that was ended by its line has such a character, so comments are firm pieces, and with them
everything that stands between two tokens.

A bracket is read exactly where the text begins with an opener and its closer is found behind it
(`LongBracket.read_eq_bracket_iff`).
-/

namespace LuaSyntax

variable {text more : Text}

namespace LongBracket

@[simp] theorem length_opener (level : Nat) : (opener level).length = level + 2 := by
  simp [opener, mark]

@[simp] theorem length_closer (level : Nat) : (closer level).length = level + 2 := by
  simp [closer, mark]

/-- What was found in a text lies inside it. -/
theorem length_of_find? {sought : Text} {place : Nat} (h : find? sought text = some place) :
    place + sought.length ≤ text.length := by
  induction text generalizing place with
  | nil => cases h
  | cons c text ih =>
    rw [find?] at h
    split at h
    · next hprefix =>
      cases h
      rw [Nat.zero_add]
      exact (List.isPrefixOf_iff_prefix.mp hprefix).length_le
    · obtain ⟨before, hbefore, rfl⟩ := Option.map_eq_some_iff.mp h
      have := ih hbefore
      rw [List.length_cons]
      omega

/-- The first occurrence of a text is its first occurrence in a longer one. -/
theorem find?_append {sought : Text} {place : Nat} (h : find? sought text = some place) :
    find? sought (text ++ more) = some place := by
  have hlen := length_of_find? h
  induction text generalizing place with
  | nil => cases h
  | cons c text ih =>
    have hsame := Text.isPrefixOf_append more
      (show sought.length ≤ (c :: text).length by omega)
    rw [List.cons_append] at hsame ⊢
    rw [find?] at h ⊢
    rw [hsame]
    split at h
    · next hprefix => rw [if_pos hprefix, h]
    · next hprefix =>
      obtain ⟨before, hbefore, rfl⟩ := Option.map_eq_some_iff.mp h
      rw [if_neg hprefix, ih hbefore (length_of_find? hbefore), Option.map_some]

/-- Behind an opener the first closer of its level is looked for. -/
theorem read_opener (level : Nat) (body : Text) :
    read (opener level ++ body) =
      match find? (closer level) (body.drop (Text.lineBreak body)) with
      | none => .unfinished
      | some length =>
        .bracket ((body.drop (Text.lineBreak body)).take length)
          (level + 2 + Text.lineBreak body + length + (level + 2)) := by
  have hlevel : Text.countWhile (· == '=') ((opener level ++ body).drop 1) = level := by
    rw [Text.countWhile, opener, mark]
    simp only [List.cons_append, List.drop_succ_cons, List.drop_zero, List.append_assoc]
    rw [List.takeWhile_append_of_pos, List.nil_append, List.takeWhile_cons_of_neg (by decide), List.append_nil,
      List.length_replicate]
    intro c hmem
    rw [List.eq_of_mem_replicate hmem]
    rfl
  have hopener : (opener level).isPrefixOf (opener level ++ body) = true :=
    List.isPrefixOf_iff_prefix.mpr (List.prefix_append _ _)
  have hbody : (opener level ++ body).drop (level + 2) = body := List.drop_left' (length_opener level)
  cases hfound : find? (closer level) (body.drop (Text.lineBreak body)) with
  | none => simp only [read, hlevel, hopener, if_true, hbody, hfound]
  | some length => simp only [read, hlevel, hopener, if_true, hbody, hfound]

/-- What is read as a long bracket begins with an opener, and the first closer of its level ends it. -/
theorem read_eq_bracket_iff {content : Text} {length : Nat} :
    read text = .bracket content length ↔ ∃ level body place, text = opener level ++ body ∧
      find? (closer level) (body.drop (Text.lineBreak body)) = some place ∧
      (body.drop (Text.lineBreak body)).take place = content ∧
      level + 2 + Text.lineBreak body + place + (level + 2) = length := by
  constructor
  · intro h
    by_cases hopener : (opener (Text.countWhile (· == '=') (text.drop 1))).isPrefixOf text = true
    · obtain ⟨level, body, rfl⟩ : ∃ level body, text = opener level ++ body := by
        obtain ⟨body, hbody⟩ := List.isPrefixOf_iff_prefix.mp hopener
        exact ⟨_, body, hbody.symm⟩
      rw [read_opener] at h
      cases hplace : find? (closer level) (body.drop (Text.lineBreak body)) with
      | none => simp [hplace] at h
      | some place =>
        rw [hplace] at h
        obtain ⟨rfl, rfl⟩ := Outcome.bracket.inj h
        exact ⟨level, body, place, rfl, hplace, rfl, rfl⟩
    · simp only [read, if_neg hopener] at h
      cases h
  · rintro ⟨level, body, place, rfl, hplace, rfl, rfl⟩
    rw [read_opener, hplace]

/-- A long bracket that was closed is the same in every longer text. -/
theorem read_append {content : Text} {length : Nat} (h : read text = .bracket content length) :
    read (text ++ more) = .bracket content length := by
  obtain ⟨level, body, place, rfl, hplace, rfl, rfl⟩ := read_eq_bracket_iff.mp h
  have hfound := length_of_find? hplace
  rw [length_closer, List.length_drop] at hfound
  have hbreak : Text.lineBreak (body ++ more) = Text.lineBreak body := Text.lineBreak_append (by omega)
  have hdrop : (body ++ more).drop (Text.lineBreak body) = body.drop (Text.lineBreak body) ++ more :=
    List.drop_append_of_le_length (by omega)
  rw [List.append_assoc, read_eq_bracket_iff]
  refine ⟨level, body ++ more, place, rfl, ?_, ?_, by rw [hbreak]⟩
  · rw [hbreak, hdrop, find?_append hplace]
  · rw [hbreak, hdrop, List.take_append_of_le_length (by rw [List.length_drop]; omega)]

/-- With a character behind the equals signs it is certain that there is no long bracket. -/
theorem read_absent_append (h : read text = .absent)
    (hl : Text.countWhile (· == '=') (text.drop 1) + 1 < text.length) :
    read (text ++ more) = .absent := by
  simp only [read] at h ⊢
  split at h
  · split at h <;> cases h
  · next hopener =>
    have hdrop : (text ++ more).drop 1 = text.drop 1 ++ more :=
      List.drop_append_of_le_length (by omega)
    have hcount : Text.countWhile (· == '=') ((text ++ more).drop 1) =
        Text.countWhile (· == '=') (text.drop 1) := by
      rw [hdrop, Text.countWhile_append_of_lt (by rw [List.length_drop]; omega)]
    rw [hcount, Text.isPrefixOf_append _ (by rw [length_opener]; omega), if_neg hopener]

/-- A long bracket begins with a square bracket. -/
theorem read_absent_of_ne {c : Char} {rest : Text} (h : c ≠ '[') : read (c :: rest) = .absent := by
  simp only [read, opener, List.isPrefixOf]
  rw [if_neg (by simp [Ne.symm h])]

/-- A long bracket has at least the two brackets of its opener. -/
theorem length_of_read {content : Text} {length : Nat} (h : read text = .bracket content length) :
    2 ≤ length := by
  obtain ⟨level, body, place, -, -, -, rfl⟩ := read_eq_bracket_iff.mp h
  omega

end LongBracket

namespace Trivium

/-- With the end of the line in view it is certain whether a comment begins with a long bracket. -/
theorem absent_append {body : Text} (h : LongBracket.read body = .absent)
    (hl : (restOfLine body).length < body.length) : LongBracket.read (body ++ more) = .absent := by
  cases body with
  | nil => simp at hl
  | cons c rest =>
    by_cases hc : c = '['
    · apply LongBracket.read_absent_append h
      -- equals signs up to the end would all be on the first line
      subst hc
      rw [List.drop_succ_cons, List.drop_zero, List.length_cons]
      have hle := Text.countWhile_le (· == '=') rest
      rcases Nat.lt_or_ge (Text.countWhile (· == '=') rest) rest.length with hlt | hge
      · omega
      · have hall : rest.takeWhile (· == '=') = rest :=
          (List.takeWhile_prefix _).eq_of_length (Nat.le_antisymm hle hge)
        have hline : restOfLine rest = rest := by
          rw [restOfLine, List.takeWhile_eq_self_iff]
          intro d hd
          have : d = '=' := by
            simpa using List.takeWhile_eq_self_iff.mp hall d hd
          subst this
          decide
        rw [restOfLine, List.takeWhile_cons_of_pos (by decide), List.length_cons,
          List.length_cons] at hl
        rw [restOfLine] at hline
        rw [hline] at hl
        omega
    · exact LongBracket.read_absent_of_ne hc

/-- A comment that ends before its text does is the same when more follows. -/
theorem comment?_append {body : Text} {trivium : Trivium} {length : Nat}
    (h : comment? body = .item trivium length) (hl : length < body.length + 2) :
    comment? (body ++ more) = .item trivium length := by
  simp only [comment?] at h ⊢
  split at h
  · next habsent =>
    cases h
    have hline : (restOfLine body).length < body.length := by omega
    have hsame : restOfLine (body ++ more) = restOfLine body :=
      Text.takeWhile_append_of_lt _ hline
    rw [absent_append habsent hline, hsame]
  · cases h
  · next hbracket =>
    rw [LongBracket.read_append hbracket]
    exact h

/-- What stands between tokens and ends before the end of the text is not longer in a longer
text. -/
theorem piece_firm : Piece.Firm piece more := by
  intro text value length h hl
  cases text with
  | nil => cases h
  | cons c rest =>
    simp only [List.cons_append, piece] at h ⊢
    split at h
    · next hblank =>
      rw [if_pos hblank]
      exact h
    · next hblank =>
      rw [if_neg hblank]
      split at h
      · next hbreak =>
        cases h
        have := Text.lineBreak_pos hbreak rest
        rw [if_pos hbreak, ← List.cons_append, Text.lineBreak_append (by omega)]
      · next hbreak =>
        rw [if_neg hbreak]
        split at h
        · next hdashes =>
          cases rest with
          | nil => simp at hdashes
          | cons d body =>
            rw [List.head?_cons] at hdashes
            rw [List.cons_append, List.head?_cons, if_pos hdashes]
            exact comment?_append h (by rw [List.length_cons, List.length_cons] at hl; exact hl)
        · cases h

/-- What begins a token begins one in a longer text, unless it is a dash at the end. -/
theorem piece_stop_append {c : Char} {rest : Text} (h : piece (c :: rest) = .stop)
    (hdash : rest = [] → c ≠ '-') : piece (c :: rest ++ more) = .stop := by
  simp only [List.cons_append, piece] at h ⊢
  split at h
  · cases h
  · next hblank =>
    rw [if_neg hblank]
    split at h
    · cases h
    · next hbreak =>
      rw [if_neg hbreak]
      split at h
      · next hdashes =>
        simp only [comment?] at h
        split at h <;> cases h
      · next hdashes =>
        rw [if_neg]
        cases rest with
        | nil => simp [hdash rfl]
        | cons d rest => exact hdashes

end Trivium

end LuaSyntax
