import LuaSyntax.Proofs.Reading.Places
import LuaSyntax.Proofs.Reading.Tokens
import LuaSyntax.Proofs.Text.Runs

/-!
# Long brackets are matched by their level

A long bracket goes up to the first closer of its level, whatever other brackets stand inside, and what it stands for
is the text between the two, without a line break at its front. A text between an opener and a closer is one long
bracket exactly if the closer does not occur earlier, one that overlaps with it included. Where a token may begin the
bracket is a string, behind two dashes it is a comment; without a closer the source ends in it, which is an error that
names the line of the opener.
-/

namespace LuaSyntax

variable {text content rest : Text} {level : Nat}

/-- A line break at the front does not depend on what follows a character that ends no line. -/
theorem Text.lineBreak_append_cons {c : Char} (hc : isLineEnd c = false) (text rest : Text) :
    lineBreak (text ++ c :: rest) = lineBreak text := by
  match text with
  | [] => cases rest <;> simp [lineBreak, hc]
  | [d] => simp [lineBreak, hc]
  | d :: e :: more => rfl

/-- A line break lies within the text. -/
theorem Text.lineBreak_le_length (text : Text) : lineBreak text ≤ text.length := by
  match text with
  | [] => exact Nat.le_refl 0
  | [c] =>
    simp only [lineBreak, List.length_cons]
    split <;> omega
  | c :: d :: rest =>
    simp only [lineBreak, List.length_cons]
    split
    · split <;> omega
    · omega

namespace LongBracket

/-- Whether the closer that is put behind a text occurs there for the first time. -/
def ClosedAtEnd (level : Nat) (text : Text) : Prop :=
  ∀ before after, text ++ closer level = before ++ closer level ++ after → after = []

/-- A text between an opener and a closer. -/
abbrev written (level : Nat) (text : Text) : Text := opener level ++ text ++ closer level

/-- Whether some content is a text without the line break at its front, if there is one. -/
def Stripped (text content : Text) : Prop :=
  ∃ first, text = first ++ content ∧ (first = [] ∨ first ∈ Text.lineBreaks) ∧
    ∀ c ∈ content.head?, first ++ [c] ∉ Text.lineBreaks

/-! ## The first line break -/

/-- What is stripped is the line break at the front. -/
theorem stripped_iff : Stripped text content ↔ content = text.drop (Text.lineBreak text) := by
  constructor
  · rintro ⟨first, rfl, hfirst⟩
    rw [Text.lineBreak_append_iff.mpr hfirst, List.drop_left]
  · rintro rfl
    have hlength : (text.take (Text.lineBreak text)).length = Text.lineBreak text := by
      rw [List.length_take, Nat.min_eq_left (Text.lineBreak_le_length text)]
    refine ⟨text.take (Text.lineBreak text), (List.take_append_drop _ _).symm, Text.lineBreak_append_iff.mp ?_⟩
    rw [List.take_append_drop, hlength]

/-- A closer does not begin in a line break. -/
theorem closedAtEnd_drop (text : Text) :
    ClosedAtEnd level (text.drop (Text.lineBreak text)) ↔ ClosedAtEnd level text := by
  obtain ⟨first, hfirst, hbreak, -⟩ := stripped_iff.mpr (rfl : text.drop (Text.lineBreak text) = _)
  generalize text.drop (Text.lineBreak text) = content at hfirst
  subst hfirst
  constructor
  · intro h before after heq
    rw [List.append_assoc, List.append_assoc] at heq
    rcases List.append_eq_append_iff.mp heq with ⟨inside, rfl, hinside⟩ | ⟨inside, rfl, hinside⟩
    · exact h inside after (by rw [hinside, List.append_assoc])
    · cases inside with
      | nil => exact h [] after (by simpa using hinside.symm)
      | cons c inside =>
        -- the closer would begin with a character of the line break
        obtain ⟨rfl, -⟩ := List.cons.inj hinside
        rcases hbreak with hnil | hmem
        · simp at hnil
        · have := Text.isLineEnd_of_mem_lineBreaks hmem ']' (by simp)
          cases this
  · intro h before after heq
    exact h (first ++ before) after (by simp [heq])

/-! ## The first closer -/

/-- What is found stands nowhere earlier. -/
theorem le_of_find? {sought before after : Text} {place : Nat} (h : find? sought text = some place)
    (htext : text = before ++ sought ++ after) : place ≤ before.length := by
  induction before generalizing text place with
  | nil =>
    cases text with
    | nil => cases h
    | cons c text =>
      have hprefix : sought.isPrefixOf (c :: text) = true := List.isPrefixOf_iff_prefix.mpr ⟨after, htext.symm⟩
      rw [find?, if_pos hprefix] at h
      cases h
      exact Nat.le_refl 0
  | cons c before ih =>
    subst htext
    rw [List.cons_append, List.cons_append, find?] at h
    split at h
    · cases h
      exact Nat.zero_le _
    · obtain ⟨place, hplace, rfl⟩ := Option.map_eq_some_iff.mp h
      exact Nat.succ_le_succ (ih hplace rfl)

/-- A text that is not empty is not found exactly where it is no part. -/
theorem find?_eq_none_iff {sought : Text} (hne : sought ≠ []) : find? sought text = none ↔ ¬ sought <:+: text := by
  induction text with
  | nil => simp [find?, hne]
  | cons c text ih =>
    rw [find?, List.infix_cons_iff, ← List.isPrefixOf_iff_prefix, not_or, ← ih]
    cases sought.isPrefixOf (c :: text) <;> simp

/-- The closer is found at the end of a text just when it does not occur in it earlier. -/
theorem find?_closer_iff :
    find? (closer level) (text ++ (closer level ++ rest)) = some text.length ↔ ClosedAtEnd level text := by
  constructor
  · intro h before after heq
    have hle := @le_of_find? _ _ before (after ++ rest) _ h (by
      rw [← List.append_assoc, heq, List.append_assoc])
    have hlength := congrArg List.length heq
    rw [List.length_append, List.length_append, List.length_append] at hlength
    exact List.eq_nil_of_length_eq_zero (by omega)
  · intro h
    exact find?_of_last (by simp [closer]) h rest

/-- An opener, a text and a closer are read as one long bracket just when the closer does not occur earlier. -/
theorem read_iff :
    read (written level text ++ rest) = .bracket content (written level text).length ↔
      ClosedAtEnd level text ∧ Stripped text content := by
  have hbreak : Text.lineBreak (text ++ (closer level ++ rest)) = Text.lineBreak text :=
    Text.lineBreak_append_cons rfl text _
  have hle := Text.lineBreak_le_length text
  rw [List.append_assoc, List.append_assoc, read_opener, hbreak, List.drop_append_of_le_length hle, stripped_iff,
    ← closedAtEnd_drop, ← @find?_closer_iff _ rest]
  have hlength : (text.drop (Text.lineBreak text)).length = text.length - Text.lineBreak text := List.length_drop
  generalize text.drop (Text.lineBreak text) = body at hlength ⊢
  cases hfind : find? (closer level) (body ++ (closer level ++ rest)) with
  | none => simp
  | some place =>
    simp only [Outcome.bracket.injEq, Option.some.injEq, List.length_append, length_opener, length_closer]
    constructor
    · rintro ⟨rfl, htotal⟩
      obtain rfl : place = body.length := by omega
      exact ⟨rfl, List.take_left⟩
    · rintro ⟨rfl, rfl⟩
      exact ⟨List.take_left, by omega⟩

/-- An opener with no closer behind it. -/
theorem read_unfinished (h : ¬ closer level <:+: text) : read (opener level ++ text) = .unfinished := by
  have hnone : find? (closer level) (text.drop (Text.lineBreak text)) = none :=
    (find?_eq_none_iff (by simp [closer])).mpr fun hcloser => h (hcloser.trans (List.drop_suffix _ _).isInfix)
  rw [read_opener, hnone]

end LongBracket

/-! ## Strings and comments -/

/-- Whether an error is that the input has ended in a long bracket, which was opened behind some text. -/
structure ParseError.Unclosed (error : ParseError) (message : Message) (before : Text) : Prop where
  message : error.message = message
  arguments : error.arguments = [toString (Scan.of before).line, "<eof>"]
  endOfInput : error.endOfInput = true

/-- Dashes do not change the line. -/
theorem Scan.line_dashes (before : Text) : (Scan.of (before ++ ['-', '-'])).line = (Scan.of before).line := by
  rw [Scan.of_append, Scan.steps_cons, Scan.steps_cons, Scan.steps_nil, Scan.step_of_not_isLineEnd rfl,
    Scan.step_of_not_isLineEnd rfl]

/-- A long bracket is read as a long string. -/
theorem Lexeme.read_opener (options : ParseOptions) (line level : Nat) (text : Text) :
    Lexeme.read options line (LongBracket.opener level ++ text) =
      Lexeme.longString line (LongBracket.opener level ++ text) := by
  cases level <;> rfl

/-- A long bracket is nothing that stands between two tokens. -/
theorem Trivium.piece_opener (level : Nat) (text : Text) :
    Trivium.piece (LongBracket.opener level ++ text) = .stop := rfl

/-- A comment in long brackets is read like a long bracket. -/
theorem Trivium.piece_of_closed {behind : Text} (h : LongBracket.ClosedAtEnd level text)
    (hcontent : LongBracket.Stripped text content) :
    Trivium.piece (['-', '-'] ++ LongBracket.written level text ++ behind) =
      .item (.comment content) (['-', '-'] ++ LongBracket.written level text).length := by
  rw [List.append_assoc, List.cons_append, List.cons_append, List.nil_append, piece_comment, comment?,
    LongBracket.read_iff.mpr ⟨h, hcontent⟩]
  rfl

namespace Lexer

variable {lexer : Lexer} {gap behind before : Text} {options : ParseOptions} {value : String}

/-- Between an opener and a closer the reader of long brackets decides. -/
theorem takes_bracket_iff (hgap : Filled true gap)
    (hrest : lexer.rest = some (gap ++ (LongBracket.written level text ++ behind))) :
    lexer.Takes gap (LongBracket.written level text) (.string value) ↔
      LongBracket.ClosedAtEnd level text ∧
        ∃ content, LongBracket.Stripped text content ∧ value = String.ofList content := by
  have hstop : Trivium.piece (LongBracket.written level text ++ behind) = .stop := rfl
  have hread (line : Nat) : Lexeme.read lexer.options line (LongBracket.written level text ++ behind) =
      Lexeme.longString line (LongBracket.written level text ++ behind) := by
    rw [List.append_assoc, List.append_assoc, Lexeme.read_opener]
  rw [takes_iff hrest hgap hstop, and_iff_right (List.prefix_append _ _), hread, Lexeme.longString]
  constructor
  · intro h
    split at h
    · next content length hread =>
      simp only [Except.ok.injEq, Prod.mk.injEq, TokenValue.string.injEq] at h
      obtain ⟨rfl, rfl⟩ := h
      obtain ⟨hclosed, hcontent⟩ := LongBracket.read_iff.mp hread
      exact ⟨hclosed, content, hcontent, rfl⟩
    · cases h
    · cases h
  · rintro ⟨hclosed, content, hcontent, rfl⟩
    rw [LongBracket.read_iff.mpr ⟨hclosed, hcontent⟩]

/-- A token begins on the line that a scan of the text before it has come to. -/
theorem Placed.line_eq (h : lexer.Placed text) (hsource : lexer.source = before ++ Trivia.behind text) :
    (lexer.trivia text).stop.line = (Scan.of before).line := by
  obtain ⟨⟨before', hsource', hstop, -⟩, -⟩ := h.trivia
  obtain rfl : before' = before := List.append_cancel_right (hsource'.symm.trans hsource)
  rw [hstop]
  rfl

/-- A lexer that has come to some place of a source stands between two characters of it. -/
theorem Reads.placed {deliveries : List Delivery} {source : Text} (h : Reads (start options source) deliveries lexer)
    (hrest : lexer.rest = some text) : lexer.Placed text ∧ lexer.source = source := by
  have hknown := @Reads.holds _ _ _ (fun lexer => (∃ text, lexer.Placed text) ∧ lexer.source = source) h
    ⟨placed_start options source, source_start options source⟩
    (fun ⟨⟨_, hplaced⟩, hsource⟩ hnext _ => by
      obtain ⟨-, -, rest, hrest⟩ := hplaced.next hnext
      exact ⟨⟨rest, hrest.drain⟩, (source_next hplaced.rest_eq hnext).trans hsource⟩)
  obtain ⟨⟨⟨text', hplaced⟩, hsource⟩, -⟩ := hknown
  obtain rfl : text' = text := Option.some.inj (hplaced.rest_eq.symm.trans hrest)
  exact ⟨hplaced, hsource⟩

/-- A long string that is not closed. -/
theorem unclosed_string {deliveries : List Delivery}
    (h : Reads (start options (before ++ (LongBracket.opener level ++ text))) deliveries lexer)
    (hgap : Filled true gap) (hrest : lexer.rest = some (gap ++ (LongBracket.opener level ++ text)))
    (hopen : ¬ LongBracket.closer level <:+: text) :
    ∃ error, tokenize options (before ++ (LongBracket.opener level ++ text)) = .error error ∧
      error.Unclosed .unfinishedLongString before := by
  have hstop := Trivium.piece_opener level text
  obtain ⟨hplaced, hsource⟩ := h.placed hrest
  have hline := hplaced.line_eq (by rw [hsource, Trivia.behind_of_filled hgap hstop])
  have hread : Lexeme.read lexer.options (lexer.trivia (gap ++ (LongBracket.opener level ++ text))).stop.line
      (LongBracket.opener level ++ text) = .error (.after (LongBracket.opener level ++ text)
        (LongBracket.opener level ++ text).length .unfinishedLongString
        [(toString (Scan.of before).line).toList, "<eof>".toList]) := by
    rw [Lexeme.read_opener, Lexeme.longString, LongBracket.read_unfinished hopen, hline]
  obtain ⟨after, hnext⟩ := next_of_refused hrest hgap hstop hread
  refine ⟨_, h.tokenize_eq_error hnext, rfl, ?_, ?_⟩
  · simp only [Fault.toError, Fault.after, List.map_cons, List.map_nil, String.ofList_toList]
  · simp [Fault.toError, Fault.after]

/-- Behind a gap the comment that is not closed is found. -/
theorem trivia_of_open (hgap : Filled true gap) (hopen : ¬ LongBracket.closer level <:+: text) :
    Trivia.behind (gap ++ (['-', '-'] ++ (LongBracket.opener level ++ text))) =
        ['-', '-'] ++ (LongBracket.opener level ++ text) ∧
      (lexer.trivia (gap ++ (['-', '-'] ++ (LongBracket.opener level ++ text)))).unfinished = true := by
  have hpieces : pieces Trivium.piece 0 (['-', '-'] ++ (LongBracket.opener level ++ text)) = ⟨[], some ()⟩ := by
    simp only [List.cons_append, List.nil_append, pieces, Trivium.piece_comment, Trivium.comment?,
      LongBracket.read_unfinished hopen]
  obtain ⟨found, hfound, hcovered⟩ := @Filled.pieces_append _ _
    (['-', '-'] ++ (LongBracket.opener level ++ text)) hgap (by rintro c ⟨⟩; rfl)
  rw [hpieces, List.append_nil] at hfound
  constructor
  · rw [Trivia.behind, hfound, Pieces.covered, hcovered, List.drop_left]
  · simp only [trivia, Trivia.read, hfound, Option.isSome_some]

/-- A comment in long brackets that is not closed. -/
theorem unclosed_comment {deliveries : List Delivery}
    (h : Reads (start options (before ++ (['-', '-'] ++ (LongBracket.opener level ++ text)))) deliveries lexer)
    (hgap : Filled true gap)
    (hrest : lexer.rest = some (gap ++ (['-', '-'] ++ (LongBracket.opener level ++ text))))
    (hopen : ¬ LongBracket.closer level <:+: text) :
    ∃ error, tokenize options (before ++ (['-', '-'] ++ (LongBracket.opener level ++ text))) = .error error ∧
      error.Unclosed .unfinishedLongComment (before ++ ['-', '-']) := by
  obtain ⟨hbehind, hunfinished⟩ := @trivia_of_open _ _ lexer _ hgap hopen
  obtain ⟨hplaced, hsource⟩ := h.placed hrest
  have hline := hplaced.line_eq (by rw [hsource, hbehind])
  obtain ⟨after, hnext⟩ := next_of_open hrest hunfinished
  rw [hline, ← Scan.line_dashes] at hnext
  refine ⟨_, h.tokenize_eq_error hnext, rfl, ?_, ?_⟩
  · simp only [Fault.toError, Fault.after, List.map_cons, List.map_nil, String.ofList_toList]
  · simp [Fault.toError, Fault.after]

/-- A source that is one comment in long brackets has no token before its end. -/
theorem feed_of_closed (options : ParseOptions) (hclosed : LongBracket.ClosedAtEnd level text)
    (hcontent : LongBracket.Stripped text content) :
    ∃ last, feed options (['-', '-'] ++ LongBracket.written level text) = ⟨[], .ok last⟩ ∧
      last.token.isEnd = true ∧
      last.comments = if options.collectComments then
        [(start options (['-', '-'] ++ LongBracket.written level text)).commentOf
          (['-', '-'] ++ LongBracket.written level text) content] else [] := by
  have hpiece := @Trivium.piece_of_closed _ _ _ [] hclosed hcontent
  have hrest : (start options (['-', '-'] ++ LongBracket.written level text)).rest =
      some (['-', '-'] ++ LongBracket.written level text ++ []) := by
    rw [List.append_nil]
    rfl
  have hnext := next_of_comment hrest (List.cons_ne_nil _ _) hpiece
  obtain ⟨token, after, hlast, hend, hcomments⟩ : ∃ token after,
      ((start options (['-', '-'] ++ LongBracket.written level text)).passComment
        (['-', '-'] ++ LongBracket.written level text) content []).next = (.ok token, after) ∧
      token.isEnd = true ∧ after.comments = _ :=
    ⟨_, _, (next_eq_ok rfl).mpr ⟨rfl, .endOfInput, 0, rfl, rfl, rfl⟩, rfl, rfl⟩
  rw [feed_eq_reading, reading_of_end (hnext.trans hlast) hend]
  have hnone : (start options (['-', '-'] ++ LongBracket.written level text)).comments = [] := rfl
  refine ⟨_, rfl, hend, ?_⟩
  simp only [hcomments, behind, passComment, hnone, options_start, trivia, Trivia.read, pieces, Pieces.found_none,
    Trivia.collect, ite_self, List.nil_append, List.append_nil]

/-- A text between an opener and a closer is one string, and behind two dashes one comment and no token, if the closer
occurs for the first time at its end; a string it is only then. Its value is the text without a line break at the
front. If no closer of its level follows an opener the source fails there, because it ends, and the error names the
line of the opener. -/
theorem long_brackets_matched (level : Nat) (text : Text) :
    -- a source that is a string
    (∀ options value,
      (∃ token last, tokenize options (LongBracket.written level text) = .ok [token, last] ∧
          token.value = .string value ∧ token.lexeme = String.ofList (LongBracket.written level text) ∧
          token.span = ⟨0, Text.size (LongBracket.written level text)⟩) ↔
        LongBracket.ClosedAtEnd level text ∧
          ∃ content, LongBracket.Stripped text content ∧ value = String.ofList content) ∧
    -- a string anywhere in a source
    (∀ (lexer : Lexer) gap behind value, Filled true gap →
      lexer.rest = some (gap ++ (LongBracket.written level text ++ behind)) →
      (lexer.Takes gap (LongBracket.written level text) (.string value) ↔
        LongBracket.ClosedAtEnd level text ∧
          ∃ content, LongBracket.Stripped text content ∧ value = String.ofList content)) ∧
    -- a comment, alone and anywhere
    (∀ content, LongBracket.ClosedAtEnd level text → LongBracket.Stripped text content →
      (∀ options, ∃ last, feed options (['-', '-'] ++ LongBracket.written level text) = ⟨[], .ok last⟩ ∧
        last.token.isEnd = true ∧
        last.comments = if options.collectComments then
          [(start options (['-', '-'] ++ LongBracket.written level text)).commentOf
            (['-', '-'] ++ LongBracket.written level text) content] else []) ∧
      ∀ (lexer : Lexer) behind, lexer.rest = some (['-', '-'] ++ LongBracket.written level text ++ behind) →
        lexer.next = (lexer.passComment (['-', '-'] ++ LongBracket.written level text) content behind).next) ∧
    -- an opener without a closer
    (∀ options before gap deliveries lexer, Filled true gap → ¬ LongBracket.closer level <:+: text →
      (Reads (start options (before ++ (LongBracket.opener level ++ text))) deliveries lexer →
        lexer.rest = some (gap ++ (LongBracket.opener level ++ text)) →
        ∃ error, tokenize options (before ++ (LongBracket.opener level ++ text)) = .error error ∧
          error.Unclosed .unfinishedLongString before) ∧
      (Reads (start options (before ++ (['-', '-'] ++ (LongBracket.opener level ++ text)))) deliveries lexer →
        lexer.rest = some (gap ++ (['-', '-'] ++ (LongBracket.opener level ++ text))) →
        ∃ error, tokenize options (before ++ (['-', '-'] ++ (LongBracket.opener level ++ text))) = .error error ∧
          error.Unclosed .unfinishedLongComment (before ++ ['-', '-']))) := by
  refine ⟨fun options value => ?_, fun lexer gap behind value hgap hrest => takes_bracket_iff hgap hrest,
    fun content hclosed hcontent => ⟨fun options => feed_of_closed options hclosed hcontent,
      fun lexer behind hrest => ?_⟩, fun options before gap deliveries lexer hgap hopen =>
      ⟨fun h hrest => unclosed_string h hgap hrest hopen, fun h hrest => unclosed_comment h hgap hrest hopen⟩⟩
  · have hrest : (start options (LongBracket.written level text)).rest = some (LongBracket.written level text) := by
      cases level <;> rfl
    rw [tokenize_one_iff hrest (by simp)]
    exact takes_bracket_iff .nil (by rw [hrest, List.append_nil, List.nil_append])
  · exact next_of_comment hrest (List.cons_ne_nil _ _) (Trivium.piece_of_closed hclosed hcontent)

/-- A text with a line break and brackets of another level: alone, behind a blank, and as a comment; and such brackets
where the closer is missing, on the second line. -/
theorem long_brackets_one :
    (∃ token last, tokenize { } (LongBracket.written 1 ['\n', ']', ']']) = .ok [token, last] ∧
      token.value = .string "]]" ∧ token.lexeme = String.ofList (LongBracket.written 1 ['\n', ']', ']']) ∧
      token.span = ⟨0, Text.size (LongBracket.written 1 ['\n', ']', ']'])⟩) ∧
    (start { } ([' '] ++ (LongBracket.written 1 ['\n', ']', ']'] ++ [';']))).Takes [' ']
      (LongBracket.written 1 ['\n', ']', ']']) (.string "]]") ∧
    (∃ last, feed { } (['-', '-'] ++ LongBracket.written 1 ['\n', ']', ']']) = ⟨[], .ok last⟩ ∧
      last.token.isEnd = true ∧ last.comments.length = 1) ∧
    ∃ error, tokenize { } (['\n'] ++ (LongBracket.opener 1 ++ [']', ']'])) = .error error ∧
      error.Unclosed .unfinishedLongString ['\n'] := by
  have hclosed : LongBracket.ClosedAtEnd 1 ['\n', ']', ']'] := (@LongBracket.find?_closer_iff _ [] _).mp rfl
  have hcontent : LongBracket.Stripped ['\n', ']', ']'] [']', ']'] := LongBracket.stripped_iff.mpr rfl
  have hopen : ¬ LongBracket.closer 1 <:+: [']', ']'] := by decide
  obtain ⟨hwhole, htakes, hcomment, -⟩ := long_brackets_matched 1 ['\n', ']', ']']
  refine ⟨(hwhole { } "]]").mpr ⟨hclosed, _, hcontent, rfl⟩,
    (htakes _ [' '] [';'] "]]" (.cons (.blank rfl) .nil) rfl).mpr ⟨hclosed, _, hcontent, rfl⟩, ?_, ?_⟩
  · obtain ⟨last, hfeed, hend, hcomments⟩ := (hcomment _ hclosed hcontent).1 { }
    exact ⟨last, hfeed, hend, congrArg List.length hcomments⟩
  · exact ((long_brackets_matched 1 [']', ']']).2.2.2 { } ['\n'] ['\n'] [] _
      (.cons (.lineEnd rfl rfl) .nil) hopen).1 (.none _) rfl

end Lexer

end LuaSyntax
