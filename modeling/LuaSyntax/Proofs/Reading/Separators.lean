import LuaSyntax.Proofs.Reading.Lexers
import LuaSyntax.Proofs.Text.Runs
import LuaSyntax.Proofs.Text.Scan

/-!
# What stands between two tokens

Blanks and comments may stand between two tokens, and where lines do not matter also line breaks, comments that
end with a line and comments of several lines. A text made of such pieces is passed over, whatever its pieces
are: all of it is before the next token and none of it belongs to that. If it begins with a space or a tab then
the token before it ends there too, and so it separates any two tokens.
-/

namespace LuaSyntax

/-- A piece of what may stand between two tokens. Where `broken` is false it holds no line end. -/
inductive Filler (broken : Bool) : Text → Prop where
  | blank {c : Char} : Text.isBlank c = true → Filler broken [c]
  /-- A comment in long brackets, which are closed for the first time at its end. -/
  | comment {level : Nat} {content : Text} :
      (∀ before after, content ++ LongBracket.closer level = before ++ LongBracket.closer level ++ after →
        after = []) →
      (broken = false → content.OneLine) →
      Filler broken (['-', '-'] ++ (LongBracket.opener level ++ content ++ LongBracket.closer level))
  | lineEnd {c : Char} : broken = true → Text.isLineEnd c = true → Filler broken [c]
  /-- A comment that ends with its line. -/
  | lineComment {body : Text} {c : Char} : broken = true → body.OneLine →
      (∀ level, ¬ LongBracket.opener level <+: body) → Text.isLineEnd c = true →
      Filler broken (['-', '-'] ++ body ++ [c])

/-- A row of pieces that may stand between two tokens. -/
inductive Filled (broken : Bool) : Text → Prop where
  | nil : Filled broken []
  | cons {piece text : Text} : Filler broken piece → Filled broken text → Filled broken (piece ++ text)

/-- A text that separates any two tokens. -/
structure Separator (broken : Bool) (text : Text) : Prop where
  begins : ∃ c rest, text = c :: rest ∧ c ∈ [' ', '\t']
  filled : Filled broken text

variable {broken : Bool} {text rest : Text}

/-- A text behind a separator is kept apart by it. -/
theorem Separator.apart (h : Separator broken text) (rest : Text) : (text ++ rest).Apart := by
  obtain ⟨c, text, rfl, hc⟩ := h.begins
  intro d hd
  rw [List.cons_append, List.head?_cons, Option.mem_some_iff] at hd
  exact hd ▸ hc

/-! ## Lines -/

/-- The mark of a long bracket stays on its line. -/
theorem oneLine_mark {bracket : Char} (level : Nat) (h : Text.isLineEnd bracket = false) :
    Text.OneLine (LongBracket.mark level bracket) := by
  intro c hmem
  rcases List.mem_append.mp hmem with hmem | hmem
  · obtain rfl := List.eq_of_mem_replicate hmem
    rfl
  · obtain rfl := List.mem_singleton.mp hmem
    exact h

/-- An opening bracket stays on its line. -/
theorem oneLine_opener (level : Nat) : Text.OneLine (LongBracket.opener level) :=
  List.forall_mem_cons.mpr ⟨rfl, oneLine_mark level rfl⟩

/-- A closing bracket stays on its line. -/
theorem oneLine_closer (level : Nat) : Text.OneLine (LongBracket.closer level) :=
  List.forall_mem_cons.mpr ⟨rfl, oneLine_mark level rfl⟩

/-- A filler without a line break stays on its line. -/
theorem Filler.oneLine (h : Filler false text) : text.OneLine := by
  cases h with
  | @blank c hblank =>
    refine List.forall_mem_singleton.mpr ?_
    simp only [Text.isBlank, Bool.or_eq_true, beq_iff_eq] at hblank
    rcases hblank with ((rfl | rfl) | rfl) | rfl <;> rfl
  | comment _ hcontent =>
    have hdashes : Text.OneLine ['-', '-'] := by simp [Text.OneLine, Text.isLineEnd]
    exact List.forall_mem_append.mpr ⟨hdashes, List.forall_mem_append.mpr
      ⟨List.forall_mem_append.mpr ⟨oneLine_opener _, hcontent rfl⟩, oneLine_closer _⟩⟩
  | lineEnd hbroken => cases hbroken
  | lineComment hbroken => cases hbroken

/-- What is not broken stands on one line. -/
theorem Filled.oneLine (h : Filled false text) : text.OneLine := by
  induction h with
  | nil => exact Text.oneLine_nil
  | cons hpiece _ ih => exact List.forall_mem_append.mpr ⟨hpiece.oneLine, ih⟩

/-! ## Comments -/

namespace LongBracket

/-- What stands in a text only at its end is found there. -/
theorem find?_of_last {sought content : Text} (hne : sought ≠ [])
    (hlast : ∀ before after, content ++ sought = before ++ sought ++ after → after = []) (rest : Text) :
    find? sought (content ++ (sought ++ rest)) = some content.length := by
  induction content with
  | nil =>
    obtain ⟨c, others, rfl⟩ := List.exists_cons_of_ne_nil hne
    rw [List.nil_append, List.cons_append, find?, ← List.cons_append, if_pos]
    · rfl
    · exact List.isPrefixOf_iff_prefix.mpr (List.prefix_append _ _)
  | cons c content ih =>
    have hnot : ¬ sought.isPrefixOf (c :: (content ++ (sought ++ rest))) = true := by
      intro hprefix
      have hwhole : c :: (content ++ (sought ++ rest)) = (c :: content ++ sought) ++ rest := by simp
      rw [hwhole, Text.isPrefixOf_append rest (by simp; omega), List.isPrefixOf_iff_prefix] at hprefix
      obtain ⟨after, hafter⟩ := hprefix
      have hlength := congrArg List.length hafter
      rw [hlast [] after hafter.symm] at hlength
      simp at hlength
      omega
    rw [List.cons_append, find?, if_neg hnot, ih, Option.map_some, List.length_cons]
    intro before after heq
    exact hlast (c :: before) after (by rw [List.cons_append, heq]; rfl)

/-- A line break in front of a character that ends no line lies in front of it. -/
theorem lineBreak_le (content : Text) {c : Char} (hc : Text.isLineEnd c = false) (rest : Text) :
    Text.lineBreak (content ++ c :: rest) ≤ content.length := by
  match content with
  | [] => cases rest <;> simp [Text.lineBreak, hc]
  | [d] =>
    simp only [List.cons_append, List.nil_append, Text.lineBreak, hc, Bool.false_and, Bool.false_eq_true, if_false]
    split <;> simp
  | d :: e :: content =>
    simp only [List.cons_append, Text.lineBreak, List.length_cons]
    split
    · split <;> omega
    · omega

/-- A long bracket that is closed for the first time at its end is read up to there. -/
theorem read_of_last {level : Nat} {content : Text}
    (hlast : ∀ before after, content ++ closer level = before ++ closer level ++ after → after = []) (rest : Text) :
    ∃ value, read (opener level ++ content ++ closer level ++ rest) =
      .bracket value (opener level ++ content ++ closer level).length := by
  rw [List.append_assoc, List.append_assoc, read_opener]
  have hbreak : Text.lineBreak (content ++ (closer level ++ rest)) ≤ content.length := by
    rw [closer, List.cons_append]
    exact lineBreak_le content rfl _
  generalize Text.lineBreak (content ++ (closer level ++ rest)) = first at hbreak
  rw [List.drop_append_of_le_length hbreak, find?_of_last (by simp [closer])]
  · refine ⟨_, congrArg (Outcome.bracket _) ?_⟩
    rw [List.length_append, List.length_append, length_opener, length_closer, List.length_drop]
    omega
  · intro before after heq
    refine hlast (content.take first ++ before) after ?_
    rw [List.append_assoc, List.append_assoc, ← List.append_assoc before, ← heq, ← List.append_assoc,
      List.take_append_drop]

/-- Where a line begins with no opener of a long bracket there is none. -/
theorem read_absent_of_line {body : Text} {c : Char} (hopener : ∀ level, ¬ opener level <+: body)
    (hc : Text.isLineEnd c = true) (rest : Text) :
    read (body ++ c :: rest) = .absent := by
  rw [read]
  refine if_neg fun hprefix => ?_
  rw [List.isPrefixOf_iff_prefix] at hprefix
  have hnot : c ∉ opener (Text.countWhile (· == '=') ((body ++ c :: rest).drop 1)) := by
    intro hmem
    rw [oneLine_opener _ c hmem] at hc
    cases hc
  have hbody : body ++ [c] <+: body ++ c :: rest := ⟨rest, by simp⟩
  rcases List.prefix_or_prefix_of_prefix hprefix hbody with hinside | hbeyond
  · rcases List.prefix_concat_iff.mp hinside with hwhole | hinside
    · exact hnot (hwhole ▸ List.mem_append_right _ (List.mem_singleton.mpr rfl))
    · exact hopener _ hinside
  · exact hnot (hbeyond.subset (List.mem_append_right _ (List.mem_singleton.mpr rfl)))

end LongBracket

/-- A line break has one character, or two that end a line each. -/
theorem Text.lineBreak_of_lineEnd {c : Char} (hc : isLineEnd c = true) (rest : Text) :
    lineBreak (c :: rest) = 1 ∨ ∃ d more, rest = d :: more ∧ isLineEnd d = true ∧ lineBreak (c :: rest) = 2 := by
  cases rest with
  | nil => exact .inl (if_pos hc)
  | cons d more =>
    by_cases hpair : (isLineEnd d && d != c) = true
    · refine .inr ⟨d, more, rfl, (Bool.and_eq_true_iff.mp hpair).1, ?_⟩
      rw [lineBreak, if_pos hc, if_pos hpair]
    · rw [lineBreak, if_pos hc, if_neg hpair]
      exact .inl rfl

namespace Trivium

/-- Behind two dashes a comment is read. -/
theorem piece_comment (body : Text) : piece ('-' :: '-' :: body) = comment? body := rfl

/-- A comment in long brackets is a piece of what stands between tokens. -/
theorem piece_of_bracket {level : Nat} {content : Text}
    (hlast : ∀ before after, content ++ LongBracket.closer level = before ++ LongBracket.closer level ++ after →
      after = []) (rest : Text) :
    ∃ value, piece (['-', '-'] ++ (LongBracket.opener level ++ content ++ LongBracket.closer level) ++ rest) =
      .item value (['-', '-'] ++ (LongBracket.opener level ++ content ++ LongBracket.closer level)).length := by
  obtain ⟨value, hread⟩ := LongBracket.read_of_last hlast rest
  refine ⟨.comment value, ?_⟩
  rw [List.append_assoc, List.cons_append, List.cons_append, List.nil_append, piece_comment, comment?, hread]
  rfl

/-- So is a comment up to the end of its line. -/
theorem piece_of_line {body : Text} {c : Char} (hline : body.OneLine)
    (hopener : ∀ level, ¬ LongBracket.opener level <+: body) (hc : Text.isLineEnd c = true) (rest : Text) :
    piece ('-' :: '-' :: (body ++ c :: rest)) = .item (.comment body) (body.length + 2) := by
  have hbody : restOfLine (body ++ c :: rest) = body := by
    rw [restOfLine, List.takeWhile_append_of_pos, List.takeWhile_cons_of_neg (by simp [hc]), List.append_nil]
    intro d hmem
    rw [hline d hmem]
    rfl
  rw [piece_comment, comment?, LongBracket.read_absent_of_line hopener hc, hbody]

/-- What begins a token ends no line. -/
theorem isLineEnd_of_stop {c : Char} {rest : Text} (h : piece (c :: rest) = .stop) : Text.isLineEnd c = false := by
  cases hc : Text.isLineEnd c with
  | false => rfl
  | true =>
    rw [piece, hc] at h
    split at h <;> cases h

/-- The end of a line is a blank. -/
theorem piece_of_lineEnd {c : Char} {rest : Text} (h : Text.isLineEnd c = true) :
    piece (c :: rest) = .item .blank (Text.lineBreak (c :: rest)) := by
  have hblank : Text.isBlank c = false := by
    simp only [Text.isLineEnd, Bool.or_eq_true, beq_iff_eq] at h
    rcases h with rfl | rfl <;> rfl
  rw [piece, hblank, h]
  rfl

end Trivium

/-! ## Rows of pieces -/

/-- To skip characters is to begin behind them. -/
theorem pieces_skip {α ε : Type} (piece : Text → Piece α ε) (skip : Nat) (text : Text) :
    pieces piece skip text = pieces piece 0 (text.drop skip) := by
  induction text generalizing skip with
  | nil => cases skip <;> rfl
  | cons c text ih =>
    cases skip with
    | zero => rfl
    | succ skip => exact ih skip

/-- A row begins with the piece that stands first. -/
theorem pieces_of_first {α ε : Type} {piece : Text → Piece α ε} {front : Text} {value : α} (hne : front ≠ [])
    (h : piece (front ++ rest) = .item value front.length) :
    pieces piece 0 (front ++ rest) = (pieces piece 0 rest).cons front value := by
  obtain ⟨c, front, rfl⟩ := List.exists_cons_of_ne_nil hne
  rw [List.cons_append, List.length_cons] at h
  rw [List.cons_append, pieces, h]
  simp only [Nat.add_sub_cancel]
  rw [pieces_skip, List.drop_left, List.take_left]

/-- Behind a line end that is filled in everything is filled in. -/
theorem Filled.of_lineEnd {c : Char} (h : Filled broken (c :: text)) (hc : Text.isLineEnd c = true) :
    Filled broken text := by
  generalize hwhole : c :: text = whole at h
  cases h with
  | nil => cases hwhole
  | cons hpiece hfilled =>
    cases hpiece with
    | blank => exact (List.cons.inj hwhole).2 ▸ hfilled
    | lineEnd => exact (List.cons.inj hwhole).2 ▸ hfilled
    | comment =>
      obtain rfl := (List.cons.inj hwhole).1
      cases hc
    | lineComment =>
      obtain rfl := (List.cons.inj hwhole).1
      cases hc

/-- What is filled in before a text is passed over, and then that text is gone on with. -/
theorem Filled.pieces_append (h : Filled broken text) (hrest : ∀ c ∈ rest.head?, Text.isLineEnd c = false) :
    ∃ found, pieces Trivium.piece 0 (text ++ rest) =
        ⟨found ++ (pieces Trivium.piece 0 rest).found, (pieces Trivium.piece 0 rest).failure⟩ ∧
      (found.map Prod.fst).flatten = text := by
  induction hn : text.length using Nat.strong_induction_on generalizing text with
  | h length ih =>
    -- a first piece, and what is filled in behind it
    have hstep {front behind : Text} {value : Trivium} (hne : front ≠ []) (hbehind : Filled broken behind)
        (htext : text = front ++ behind)
        (hpiece : Trivium.piece (front ++ (behind ++ rest)) = .item value front.length) :
        ∃ found, pieces Trivium.piece 0 (text ++ rest) =
            ⟨found ++ (pieces Trivium.piece 0 rest).found, (pieces Trivium.piece 0 rest).failure⟩ ∧
          (found.map Prod.fst).flatten = text := by
      have hpos := List.length_pos_iff.mpr hne
      have hlength : behind.length < length := by
        rw [← hn, htext, List.length_append]
        omega
      obtain ⟨found, hfound, hcovered⟩ := ih _ hlength hbehind rfl
      refine ⟨(front, value) :: found, ?_, ?_⟩
      · rw [htext, List.append_assoc, pieces_of_first hne hpiece, hfound]
        rfl
      · rw [List.map_cons, List.flatten_cons, hcovered, htext]
    cases h with
    | nil => exact ⟨[], rfl, rfl⟩
    | @cons piece behind hpiece hfilled =>
      cases hpiece with
      | @blank c hblank =>
        refine hstep (List.cons_ne_nil c []) hfilled rfl (show Trivium.piece (c :: _) = .item .blank 1 from ?_)
        rw [Trivium.piece, if_pos hblank]
      | comment hlast =>
        obtain ⟨value, hcomment⟩ := Trivium.piece_of_bracket hlast (behind ++ rest)
        exact hstep (by simp) hfilled rfl hcomment
      | @lineComment body c hbroken hline hopener hc =>
        -- the line end is no part of the comment
        have hcomment := Trivium.piece_of_line hline hopener hc (behind ++ rest)
        refine @hstep (['-', '-'] ++ body) ([c] ++ behind) (.comment body) (by simp)
          (.cons (.lineEnd hbroken hc) hfilled) (by simp) ?_
        simpa using hcomment
      | @lineEnd c hbroken hc =>
        have hbreak := @Trivium.piece_of_lineEnd c (behind ++ rest) hc
        rcases Text.lineBreak_of_lineEnd hc (behind ++ rest) with hone | ⟨d, more, heq, hd, htwo⟩
        · rw [hone] at hbreak
          exact hstep (List.cons_ne_nil c []) hfilled rfl hbreak
        · -- the other half of the line break is filled in too, since what follows begins with no line end
          cases behind with
          | nil =>
            rw [List.nil_append] at heq
            rw [hrest d (by rw [heq, List.head?_cons, Option.mem_some_iff])] at hd
            cases hd
          | cons e behind =>
            obtain rfl := (List.cons.inj heq).1
            rw [htwo] at hbreak
            exact @hstep [c, e] behind .blank (by simp) (hfilled.of_lineEnd hd) rfl hbreak

/-- What is filled in before a token is passed over, and no more than that. -/
theorem Filled.pieces_eq (h : Filled broken text) (hrest : Trivium.piece rest = .stop) :
    ∃ found, pieces Trivium.piece 0 (text ++ rest) = ⟨found, none⟩ ∧ (found.map Prod.fst).flatten = text := by
  have hnone : pieces Trivium.piece 0 rest = .none := by
    cases rest with
    | nil => rfl
    | cons c rest => rw [pieces, hrest]
  obtain ⟨found, hfound, hcovered⟩ := @Filled.pieces_append _ _ rest h fun c hc => by
    cases rest with
    | nil => cases hc
    | cons d rest =>
      cases hc
      exact Trivium.isLineEnd_of_stop hrest
  rw [hnone] at hfound
  exact ⟨found, by rw [hfound, Pieces.found_none, List.append_nil]; rfl, hcovered⟩

/-! ## Trivia -/

namespace Trivia

variable {options : ParseOptions} {source : Text} {place : Place}

/-- Behind pieces without line ends the line is the same. -/
theorem line_collect (row : List (Text × Trivium)) (h : Text.OneLine (row.map Prod.fst).flatten) (place : Place) :
    (collect options source place row).2.line = place.line := by
  induction row generalizing place with
  | nil => rfl
  | cons first others ih =>
    obtain ⟨text, trivium⟩ := first
    rw [List.map_cons, List.flatten_cons] at h
    obtain ⟨hfirst, hothers⟩ := List.forall_mem_append.mp h
    have hline := (ih hothers (place.after text)).trans (Place.line_after hfirst place)
    cases trivium <;> exact hline

/-- Before a token all that is filled in is passed over. -/
theorem behind_of_filled (h : Filled broken text) (hrest : Trivium.piece rest = .stop) :
    behind (text ++ rest) = rest := by
  obtain ⟨found, hfound, hcovered⟩ := h.pieces_eq hrest
  rw [behind, hfound, Pieces.covered, hcovered, List.drop_left]

/-- A filling is read as trivia and leaves nothing unfinished, and without a break it leaves the line. -/
theorem read_of_filled (h : Filled broken text) (hrest : Trivium.piece rest = .stop) :
    (read options source place (text ++ rest)).unfinished = false ∧
      (broken = false → (read options source place (text ++ rest)).stop.line = place.line) := by
  obtain ⟨found, hfound, hcovered⟩ := h.pieces_eq hrest
  simp only [read, hfound]
  refine ⟨rfl, fun hbroken => line_collect found ?_ place⟩
  subst hbroken
  rw [hcovered]
  exact h.oneLine

end Trivia

end LuaSyntax
