import LuaSyntax.Proofs.Reading.Brackets
import LuaSyntax.Proofs.Reading.Strings
import LuaSyntax.Proofs.Text.Scan
import LuaSyntax.Token.Escape
import LuaSyntax.Token.Trivia

/-!
# Rows of pieces divide no line break

Blanks, comments and strings are read as rows of pieces. Of these a line break is one piece, or part of
one: an escape takes the whole break behind its backslash, and the escape that skips blanks takes all of
them. All other pieces end with a character that ends no line, and so does whatever is read of an escape
that is wrong.
-/

namespace LuaSyntax

variable {α ε : Type} {text : Text}

/-! ## Rows of pieces -/

/-- Whether pieces end where no line break is divided. -/
def Piece.Parts (piece : Text → Piece α ε) : Prop :=
  ∀ ⦃c rest value length⦄, piece (c :: rest) = .item value length →
    Text.PartedAt (c :: rest) (length - 1 + 1)

/-- Whether none of the texts in a row, with some text behind them, divides a line break with the
next. -/
def RowParted : List (Text × α) → Text → Prop
  | [], _ => True
  | first :: others, behind =>
    Text.Parted first.1 ((others.map Prod.fst).flatten ++ behind) ∧ RowParted others behind

/-- Parts that each part the text part it together. -/
theorem RowParted.parted {row : List (Text × α)} {behind : Text} (h : RowParted row behind) :
    Text.Parted (row.map Prod.fst).flatten behind := by
  induction row with
  | nil => exact Text.parted_nil_left behind
  | cons first others ih =>
    rw [List.map_cons, List.flatten_cons]
    exact h.1.append (ih h.2)

/-- What pieces cover parts the text between each two of them. -/
theorem rowParted_pieces {piece : Text → Piece α ε} (h : Piece.Parts piece) (skip : Nat)
    (text : Text) :
    RowParted (pieces piece skip text).found
      (text.drop (skip + (pieces piece skip text).covered.length)) := by
  induction text generalizing skip with
  | nil => cases skip <;> trivial
  | cons c rest ih =>
    cases skip with
    | succ skip =>
      rw [pieces, Nat.add_right_comm, List.drop_succ_cons]
      exact ih skip
    | zero =>
      rw [pieces]
      cases hp : piece (c :: rest) with
      | stop => trivial
      | fail error => trivial
      | item value length =>
        have hcovered := pieces_covered piece (length - 1) rest
        have hbehind := (List.prefix_append_drop hcovered).symm
        rw [List.drop_drop] at hbehind
        simp only [Pieces.covered_cons]
        rcases Nat.lt_or_ge rest.length (length - 1) with hl | hl
        · rw [pieces_of_length_le hl.le, List.take_of_length_le hl.le]
          refine ⟨?_, trivial⟩
          simp [Text.parted_nil_right]
        · rw [drop_first_piece c hl]
          refine ⟨?_, ih (length - 1)⟩
          rw [← Pieces.covered, hbehind]
          exact h hp

/-- What pieces cover may be cut off from what follows. -/
theorem partedAt_pieces {piece : Text → Piece α ε} (h : Piece.Parts piece) (text : Text) :
    text.PartedAt (pieces piece 0 text).covered.length := by
  have hrow := (rowParted_pieces h 0 text).parted
  rw [Nat.zero_add] at hrow
  have hcovered := List.prefix_iff_eq_take.mp (pieces_covered piece 0 text)
  rw [List.drop_zero] at hcovered
  rw [Text.PartedAt, ← hcovered]
  exact hrow

/-! ## Strings -/

/-- How far reading comes that gives a value and a number of characters, or fails. -/
def reach : Except Fault (α × Nat) → Nat
  | .ok (_, length) => length
  | .error fault => fault.read

namespace Escape

variable {dialect : Dialect}

/-- The digits of a code point, and the one that is too many, end no line. -/
theorem oneLine_codePoint {value count : Nat}
    (h : codePoint value text = .error count ∨ ∃ code, codePoint value text = .ok (code, count)) :
    Text.OneLine (text.take count) := by
  induction text generalizing value count with
  | nil => simp [Text.oneLine_nil]
  | cons c rest ih =>
    rw [codePoint] at h
    cases hdigit : Digit.hex? c with
    | none =>
      obtain rfl : 0 = count := by simpa [hdigit] using h
      exact Text.oneLine_nil
    | some digit =>
      have hc : Text.isLineEnd c = false :=
        Text.isLineEnd_of_isHex c (by rw [Digit.isHex, hdigit]; rfl)
      simp only [hdigit] at h
      split at h
      · obtain rfl : 1 = count := by simpa using h
        exact Text.oneLine_take_of_cons hc Text.oneLine_nil
      · cases hrest : codePoint (value * 16 + digit) rest with
        | ok found =>
          obtain ⟨code, others⟩ := found
          obtain rfl : others + 1 = count := by simpa [hrest] using h
          exact Text.oneLine_take_of_cons hc (ih (.inr ⟨code, hrest⟩))
        | error others =>
          obtain rfl : others + 1 = count := by simpa [hrest] using h
          exact Text.oneLine_take_of_cons hc (ih (.inl hrest))

/-- Reading an escape by decimal digits comes to the last of them. -/
theorem oneLine_readDecimal {rest : Text} :
    Text.OneLine (('\\' :: rest).take (reach (readDecimal ('\\' :: rest)))) := by
  have hdigits : Text.OneLine (rest.take ((rest.take 3).takeWhile Char.isDigit).length) := by
    have hrun := (List.takeWhile_prefix Char.isDigit).trans (List.take_prefix 3 rest)
    rw [← List.prefix_iff_eq_take.mp hrun]
    exact Text.oneLine_takeWhile Text.isLineEnd_of_isDigit _
  rw [readDecimal]
  split <;> exact Text.oneLine_take_of_cons rfl hdigits

/-- A hexadecimal escape stays on its line. -/
theorem oneLine_readHex {c : Char} {rest : Text} (hc : Text.isLineEnd c = false) :
    Text.OneLine (('\\' :: c :: rest).take (reach (readHex ('\\' :: c :: rest)))) := by
  rw [readHex]
  split
  · next high low hdigits =>
    have htwo : Text.OneLine (rest.take 2) := by
      intro d hmem
      have hvalue := List.mem_map_of_mem (f := Digit.hex?) hmem
      rw [show (rest.take 2).map Digit.hex? = _ from hdigits] at hvalue
      refine Text.isLineEnd_of_isHex d ?_
      rcases List.mem_pair.mp hvalue with heq | heq <;> rw [Digit.isHex, heq] <;> rfl
    exact Text.oneLine_take_of_cons rfl (Text.oneLine_take_of_cons hc htwo)
  · exact Text.oneLine_take_of_cons rfl (Text.oneLine_take_of_cons hc Text.oneLine_nil)

/-- Reading an escape by a code point comes to its closing brace or to what stands in its stead. -/
theorem oneLine_readCodePoint {c : Char} {rest : Text} (hc : Text.isLineEnd c = false) :
    Text.OneLine (('\\' :: c :: rest).take (reach (readCodePoint ('\\' :: c :: rest)))) := by
  have htwo : Text.OneLine (('\\' :: c :: rest).take 2) :=
    Text.oneLine_take_of_cons rfl (Text.oneLine_take_of_cons hc Text.oneLine_nil)
  rw [readCodePoint]
  split
  · exact htwo
  · next hbrace =>
    have hone : Text.OneLine (rest.take 1) := by
      cases rest with
      | nil => exact Text.oneLine_nil
      | cons d rest =>
        obtain rfl : d = '\x7b' := by simpa using hbrace
        exact Text.oneLine_take_of_cons rfl Text.oneLine_nil
    have hthree : Text.OneLine (('\\' :: c :: rest).take 3) := htwo.take_add hone
    split
    · exact hthree
    · split
      · next count hcode =>
        rw [Nat.add_comm]
        exact hthree.take_add (oneLine_codePoint (.inl hcode))
      · next value count hcode =>
        have hall := hthree.take_add (oneLine_codePoint (.inr ⟨value, hcode⟩))
        split
        · rw [reach, fault, Fault.after, Nat.add_comm]
          exact hall
        · next hclose =>
          rw [reach, show count + 4 = 3 + count + 1 by omega]
          refine hall.take_add ?_
          cases hlast : ('\\' :: c :: rest).drop (3 + count) with
          | nil => exact Text.oneLine_nil
          | cons d behind =>
            rw [Nat.add_comm, hlast] at hclose
            obtain rfl : d = '\x7d' := by simpa using hclose
            exact Text.oneLine_take_of_cons rfl Text.oneLine_nil

/-- Reading an escape comes to a point that divides no line break. -/
theorem partedAt_read (dialect : Dialect) (rest : Text) :
    Text.PartedAt ('\\' :: rest) (reach (read dialect ('\\' :: rest))) := by
  cases rest with
  | nil => exact Text.partedAt_of_length_le (Nat.le_refl _)
  | cons c rest =>
    have htwo (hc : Text.isLineEnd c = false) : Text.PartedAt ('\\' :: c :: rest) 2 :=
      Text.partedAt_cons rfl (Text.partedAt_cons hc (Text.partedAt_zero _))
    obtain ⟨reader, hreader⟩ := exists_reader dialect c
    rw [hreader.read_eq]
    cases hreader with
    | letter hsimple =>
      have hsome : (simple? c).isSome = true := by rw [hsimple]; rfl
      exact htwo (@Text.not_isLineEnd (fun d => (simple? d).isSome) rfl rfl c hsome)
    | lineBreak =>
      rw [reach, List.drop_succ_cons, List.drop_zero, Nat.add_comm]
      exact Text.partedAt_cons rfl (Text.parted_lineBreak (c :: rest))
    | decimal => exact oneLine_readDecimal.partedAt
    | skip hc =>
      rw [reach, List.drop_succ_cons, List.drop_succ_cons, List.drop_zero, Nat.add_comm]
      exact Text.partedAt_cons rfl (Text.partedAt_cons (hc ▸ rfl) (Text.partedAt_blanks rest))
    | hex hc => exact (oneLine_readHex (hc ▸ rfl)).partedAt
    | codePoint hc => exact (oneLine_readCodePoint (hc ▸ rfl)).partedAt
    | refused => exact Text.partedAt_cons rfl (Text.partedAt_zero _)
    | other hknown => exact htwo (Bool.eq_false_iff.mpr fun hend => hknown (.inr (.inl hend)))

/-- An escape that is wrong is blamed on the point that reading came to. -/
theorem blamesStart_of_read {dialect : Dialect} {fault : Fault} (h : read dialect text = .error fault) :
    fault.blamesStart = false := by
  match text with
  | [] => cases h
  | [_] => cases h
  | first :: c :: rest =>
    obtain ⟨reader, hreader⟩ := exists_reader dialect c
    rw [hreader.read_eq] at h
    cases hreader with
    | decimal =>
      rw [readDecimal] at h
      split at h <;> cases h
      rfl
    | hex =>
      rw [readHex] at h
      split at h <;> cases h
      rfl
    | codePoint =>
      rw [readCodePoint] at h
      repeat' split at h
      all_goals cases h
      all_goals rfl
    | refused =>
      cases h
      rfl
    | letter => cases h
    | lineBreak => cases h
    | skip => cases h
    | other => cases h

end Escape

namespace QuotedString

variable {dialect : Dialect} {quote : Char}

/-- Each piece of a string parts its text. -/
theorem piece_parts (dialect : Dialect) (quote : Char) : Piece.Parts (piece dialect quote) := by
  intro c rest value length h
  cases QuotedString.piece_eq_item_iff.mp h with
  | plain _ hend _ => exact Text.partedAt_cons hend (Text.partedAt_zero _)
  | escape hc _ _ hescape =>
    subst hc
    have hread := Escape.partedAt_read dialect rest
    rw [hescape, reach] at hread
    cases length with
    | zero => exact Text.partedAt_cons rfl (Text.partedAt_zero _)
    | succ count => exact hread

/-- Only an escape spoils a string. -/
theorem escape_of_fail {fault : Fault} (h : piece dialect quote text = .fail fault) :
    ∃ rest, text = '\\' :: rest ∧ Escape.read dialect ('\\' :: rest) = .error fault := by
  cases text with
  | nil => cases h
  | cons c rest =>
    cases QuotedString.piece_eq_fail_iff.mp h with
    | escape hc _ _ hescape =>
      subst hc
      exact ⟨rest, rfl, hescape⟩

/-- Reading a string comes to its closing quote, or to something in its stead. -/
theorem partedAt_read (hquote : Text.isLineEnd quote = false) (rest : Text) :
    Text.PartedAt (quote :: rest) (reach (read dialect quote (quote :: rest))) := by
  have hcontent := partedAt_pieces (piece_parts dialect quote) rest
  have hbehind := Text.partedAt_cons hquote hcontent
  simp only [read, List.drop_succ_cons, List.drop_zero]
  split
  · next fault hfault =>
    have hpiece := piece_of_failure hfault
    rw [Nat.zero_add] at hpiece
    obtain ⟨after, hafter, hescape⟩ := escape_of_fail hpiece
    rw [reach, Fault.shift, Nat.add_comm]
    refine hbehind.add ?_
    have hread := Escape.partedAt_read dialect after
    rwa [hescape, ← hafter] at hread
  · split
    · next c behind hafter =>
      have hpast (hc : Text.isLineEnd c = false) : Text.PartedAt (quote :: rest)
          ((pieces (piece dialect quote) 0 rest).covered.length + 2) := by
        refine hbehind.add (b := 1) (Text.OneLine.partedAt ?_)
        rw [List.drop_succ_cons, hafter]
        exact Text.oneLine_take_of_cons hc Text.oneLine_nil
      split
      · next hclosed => exact hpast (by rw [beq_iff_eq.mp hclosed, hquote])
      · split
        · next hslash => exact hpast (by rw [beq_iff_eq.mp hslash]; rfl)
        · exact hbehind
    · exact hbehind

/-- Within a string no fault blames its start. -/
theorem blamesStart_of_read {fault : Fault} (h : read dialect quote text = .error fault) :
    fault.blamesStart = false := by
  simp only [read] at h
  split at h
  · next fault' hfailure =>
    cases h
    obtain ⟨rest, -, hescape⟩ := escape_of_fail (piece_of_failure hfailure)
    have hblames := Escape.blamesStart_of_read hescape
    exact hblames
  · split at h
    · split at h <;> cases h
      rfl
    · cases h
      rfl

end QuotedString

/-! ## Brackets and comments -/

namespace LongBracket

/-- What is found in a text stands there. -/
theorem prefix_of_find? {sought : Text} {place : Nat} (h : find? sought text = some place) :
    sought <+: text.drop place := by
  induction text generalizing place with
  | nil => cases h
  | cons c text ih =>
    rw [find?] at h
    split at h
    · next hfound =>
      cases h
      exact List.isPrefixOf_iff_prefix.mp hfound
    · obtain ⟨before, hbefore, rfl⟩ := Option.map_eq_some_iff.mp h
      exact ih hbefore

/-- A long bracket ends with a square bracket. -/
theorem partedAt_read {content : Text} {length : Nat} (h : read text = .bracket content length) :
    text.PartedAt length := by
  obtain ⟨level, body, place, rfl, hplace, -, rfl⟩ := read_eq_bracket_iff.mp h
  obtain ⟨after, hafter⟩ := prefix_of_find? hplace
  have hlast : (opener level ++ body)[level + 2 + Text.lineBreak body + place + (level + 1)]? = some ']' := by
    rw [← List.getElem?_drop, ← List.drop_drop, ← List.drop_drop, List.drop_left' (length_opener level), ← hafter]
    simp [closer, mark]
  refine Text.parted_take fun c hc => ?_
  obtain rfl : ']' = c := Option.some.inj (hlast.symm.trans hc)
  rfl

end LongBracket

namespace Trivium

/-- A blank ends no line. -/
theorem isLineEnd_of_isBlank (c : Char) (h : Text.isBlank c = true) : Text.isLineEnd c = false :=
  Text.not_isLineEnd rfl rfl c h

/-- The rest of a line stays on it. -/
theorem oneLine_restOfLine (text : Text) : Text.OneLine (text.take (restOfLine text).length) :=
  Text.oneLine_run (fun _ h => Bool.not_eq_true' _ ▸ h) text

/-- Each piece between two tokens parts its text. -/
theorem piece_parts : Piece.Parts piece := by
  intro c rest value length h
  rw [piece] at h
  split at h
  · next hblank =>
    cases h
    exact Text.partedAt_cons (isLineEnd_of_isBlank c hblank) (Text.partedAt_zero _)
  · split at h
    · next hend =>
      cases h
      rw [Nat.sub_add_cancel (Text.lineBreak_pos hend rest)]
      exact Text.parted_lineBreak (c :: rest)
    · split at h
      · next hdashes =>
        rw [Bool.and_eq_true, beq_iff_eq, beq_iff_eq] at hdashes
        obtain ⟨rfl, hsecond⟩ := hdashes
        obtain ⟨body, rfl⟩ : ∃ body, rest = '-' :: body := by
          cases rest with
          | nil => cases hsecond
          | cons d body => exact ⟨body, by rw [Option.some.inj hsecond]⟩
        have htwo {count : Nat} (hbody : Text.PartedAt body count) :
            Text.PartedAt ('-' :: '-' :: body) (count + 2) :=
          Text.partedAt_cons rfl (Text.partedAt_cons rfl hbody)
        rw [List.drop_succ_cons, List.drop_zero, comment?] at h
        split at h
        · cases h
          exact htwo (oneLine_restOfLine body).partedAt
        · cases h
        · next hbracket =>
          cases h
          exact htwo (LongBracket.partedAt_read hbracket)
      · cases h

end Trivium

end LuaSyntax
