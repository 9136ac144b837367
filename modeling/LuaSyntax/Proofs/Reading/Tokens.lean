import LuaSyntax.Proofs.Reading.Deliveries
import LuaSyntax.Proofs.Reading.Lengths
import LuaSyntax.Proofs.Reading.Separators

/-!
# Which token a lexer takes

What a lexer reads is said here of the texts alone: it passes over a gap of blanks and comments, and takes the
text behind that for a token. Which token that is, or why there is none, depends on the text behind the gap and
on nothing before it, so the readers of single lexemes can be described without a lexer.
-/

namespace LuaSyntax.Lexer

/-- Whether a lexer passes over a gap and then takes a text for a token of some value: the token says where the
text stands, and the lexer stands behind it. -/
def Takes (lexer : Lexer) (gap raw : Text) (value : TokenValue) : Prop :=
  ∃ token after behind, lexer.next = (.ok token, after) ∧
    lexer.rest = some (gap ++ (raw ++ behind)) ∧ after.rest = some behind ∧
    token.value = value ∧ token.lexeme = String.ofList raw ∧
    token.span = ⟨lexer.place.offset + Text.size gap, lexer.place.offset + Text.size gap + Text.size raw⟩

variable {lexer : Lexer} {gap text raw : Text} {value value' : TokenValue}

/-- What a lexer takes is the front of what is left to read. -/
theorem Takes.rest_eq (h : lexer.Takes gap raw value) : ∃ behind, lexer.rest = some (gap ++ (raw ++ behind)) := by
  obtain ⟨-, -, behind, -, hrest, -⟩ := h
  exact ⟨behind, hrest⟩

/-- A lexer takes one token only. -/
theorem Takes.value_eq {gap' raw' : Text} (h : lexer.Takes gap raw value) (h' : lexer.Takes gap' raw' value') :
    value = value' := by
  obtain ⟨token, after, -, hnext, -, -, rfl, -⟩ := h
  obtain ⟨token', after', -, hnext', -, -, rfl, -⟩ := h'
  rw [hnext] at hnext'
  cases hnext'
  rfl

/-- Where the text behind a gap begins. -/
theorem offset_of_filled (hgap : Filled true gap) (hstop : Trivium.piece text = .stop) :
    (lexer.trivia (gap ++ text)).stop.offset = lexer.place.offset + Text.size gap := by
  have hoffset := Trivia.offset_stop lexer.options lexer.source lexer.place (gap ++ text)
  rw [Trivia.behind_of_filled hgap hstop, Text.size_append] at hoffset
  rw [trivia]
  omega

/-- A lexer takes for a token what the reader of lexemes finds behind the gap. -/
theorem takes_iff (hrest : lexer.rest = some (gap ++ text)) (hgap : Filled true gap)
    (hstop : Trivium.piece text = .stop) :
    lexer.Takes gap raw value ↔ raw <+: text ∧
      Lexeme.read lexer.options (lexer.trivia (gap ++ text)).stop.line text = .ok (value, raw.length) := by
  have hbehind := Trivia.behind_of_filled hgap hstop
  have hclosed : (lexer.trivia (gap ++ text)).unfinished = false := (Trivia.read_of_filled hgap hstop).1
  have hoffset : (lexer.trivia (gap ++ text)).stop.offset = _ := offset_of_filled hgap hstop
  constructor
  · rintro ⟨token, after, behind, hnext, hwhole, -, hvalue, hlexeme, -⟩
    rw [hrest, Option.some.injEq, List.append_cancel_left_eq] at hwhole
    obtain ⟨-, found, length, hread, rfl, rfl⟩ := (next_eq_ok hrest).mp hnext
    rw [hbehind] at hread
    rw [tokenOf, hbehind] at hlexeme
    have hraw : text.take length = raw := String.ofList_injective hlexeme
    have hlength : raw.length = length := by
      rw [← hraw, List.length_take, Nat.min_eq_left (Lexeme.length_le_of_read hread)]
    obtain rfl : found = value := hvalue
    exact ⟨⟨behind, hwhole.symm⟩, hlength ▸ hread⟩
  · rintro ⟨⟨behind, rfl⟩, hread⟩
    refine ⟨_, _, behind, (next_eq_ok hrest).mpr ⟨hclosed, value, raw.length, ?_, rfl, rfl⟩, hrest, ?_, rfl, ?_, ?_⟩
    · rwa [hbehind]
    · rw [Lexer.behind, hbehind, List.drop_left]
    · rw [tokenOf, hbehind, List.take_left]
    · rw [Token.span, tokenOf, hbehind, List.take_left, Place.offset_after, hoffset]

/-- A lexer that finds no lexeme behind the gap fails there. -/
theorem next_of_refused {fault : Fault} (hrest : lexer.rest = some (gap ++ text)) (hgap : Filled true gap)
    (hstop : Trivium.piece text = .stop)
    (hread : Lexeme.read lexer.options (lexer.trivia (gap ++ text)).stop.line text = .error fault) :
    ∃ after, lexer.next =
      (.error (fault.toError lexer.source (lexer.trivia (gap ++ text)).stop text), after) := by
  have hbehind := Trivia.behind_of_filled hgap hstop
  have hclosed : (lexer.trivia (gap ++ text)).unfinished = false := (Trivia.read_of_filled hgap hstop).1
  have hrest' : (lexer.trivia (gap ++ text)).rest = text := hbehind
  simp only [next, hrest]
  rw [← trivia, hrest', hclosed, if_neg Bool.false_ne_true, hread]
  exact ⟨_, rfl⟩

/-- A lexer that finds a comment that is never closed fails at the end of the source. -/
theorem next_of_open (hrest : lexer.rest = some text) (hopen : (lexer.trivia text).unfinished = true) :
    ∃ after, lexer.next =
      (.error (Fault.toError (.after (Trivia.behind text) (Trivia.behind text).length .unfinishedLongComment
        [(toString (lexer.trivia text).stop.line).toList, "<eof>".toList]) lexer.source
        (lexer.trivia text).stop (Trivia.behind text)), after) := by
  have hrest' : (lexer.trivia text).rest = Trivia.behind text := rfl
  simp only [next, hrest]
  rw [← trivia, hrest', hopen, if_pos rfl]
  exact ⟨_, rfl⟩

/-! ## Comments -/

/-- The comment that a text is found to be where a lexer stands. -/
def commentOf (lexer : Lexer) (raw value : Text) : Comment :=
  { value := String.ofList value
    raw := String.ofList raw
    placement := .between lexer.options lexer.source lexer.place (lexer.place.after raw) }

/-- The lexer behind a comment, which it keeps if comments are collected. -/
def passComment (lexer : Lexer) (raw value behind : Text) : Lexer :=
  { lexer with
    place := lexer.place.after raw
    rest := some behind
    comments := lexer.comments ++ if lexer.options.collectComments then [lexer.commentOf raw value] else [] }

/-- Where a comment stands the lexer reads on behind it. -/
theorem next_of_comment {comment behind : Text} (hrest : lexer.rest = some (raw ++ behind)) (hne : raw ≠ [])
    (hpiece : Trivium.piece (raw ++ behind) = .item (.comment comment) raw.length) :
    lexer.next = (lexer.passComment raw comment behind).next := by
  have hread : Trivia.read lexer.options lexer.source lexer.place (raw ++ behind) =
      { Trivia.read lexer.options lexer.source (lexer.place.after raw) behind with
        comments := (if lexer.options.collectComments then [lexer.commentOf raw comment] else []) ++
          (Trivia.read lexer.options lexer.source (lexer.place.after raw) behind).comments } := by
    have hdrop : (raw ++ behind).drop
        ((pieces Trivium.piece 0 behind).cons raw (Trivium.comment comment)).covered.length =
        behind.drop (pieces Trivium.piece 0 behind).covered.length := by
      rw [Pieces.covered_cons, List.length_append, ← List.drop_drop, List.drop_left]
    simp only [Trivia.read, pieces_of_first hne hpiece, hdrop]
    cases lexer.options.collectComments <;> rfl
  simp only [next, hrest, hread, passComment, List.append_assoc]

/-! ## Whole sources -/

variable {options : ParseOptions} {source : Text}

/-- A lexer that takes all that is left leaves nothing. -/
theorem rest_of_all {token : Token} {after : Lexer} (hrest : lexer.rest = some raw)
    (hnext : lexer.next = (.ok token, after)) (hlexeme : token.lexeme = String.ofList raw) :
    after.rest = some [] := by
  obtain ⟨-, found, length, -, rfl, rfl⟩ := (next_eq_ok hrest).mp hnext
  have htake : (Trivia.behind raw).take length = raw := String.ofList_injective hlexeme
  have hle := length_behind_le raw
  have hlength := congrArg List.length htake
  rw [List.length_take] at hlength
  rw [Lexer.behind, List.drop_eq_nil_of_le (by omega)]

/-- The first token of a source is the one that is read at its start. -/
theorem next_of_tokenize {token : Token} {others : List Token} (h : tokenize options source = .ok (token :: others)) :
    ∃ after, (start options source).next = (.ok token, after) := by
  rw [tokenize, feed, readAll] at h
  rcases hnext : (start options source).next with ⟨error | token', after⟩
  · rw [hnext] at h
    cases h
  · simp only [hnext, Feed.tokens] at h
    split at h
    · cases h
      exact ⟨after, rfl⟩
    · cases hending : (readAll source.length after.drain.2).ending with
      | error error =>
        rw [hending] at h
        cases h
      | ok ending =>
        rw [hending] at h
        obtain rfl := (List.cons.inj (Except.ok.inj h)).1
        exact ⟨after, rfl⟩

/-- A source has one token before its end if the lexer takes all of it for that. -/
theorem tokenize_one_iff (hstart : (start options raw).rest = some raw) (hvalue : value ≠ .endOfInput) :
    (∃ token last, tokenize options raw = .ok [token, last] ∧ token.value = value ∧
        token.lexeme = String.ofList raw ∧ token.span = ⟨0, Text.size raw⟩) ↔
      (start options raw).Takes [] raw value := by
  obtain ⟨text, hsited, -⟩ := sited_start options raw
  obtain rfl : raw = text := Option.some.inj (hstart.symm.trans hsited.rest_eq)
  have hoffset : (start options raw).place.offset = 0 := by
    have := hsited.size_source
    rw [source_start] at this
    omega
  constructor
  · rintro ⟨token, last, htokens, hvalue, hlexeme, hspan⟩
    obtain ⟨after, hnext⟩ := next_of_tokenize htokens
    refine ⟨_, after, [], hnext, by simpa using hstart, rest_of_all hstart hnext hlexeme, hvalue, hlexeme, ?_⟩
    simpa [hoffset] using hspan
  · rintro ⟨token, after, -, hnext, -, -, hfound, hlexeme, hspan⟩
    have hend : token.isEnd = false := by
      rw [Token.isEnd, hfound]
      exact beq_false_of_ne hvalue
    have hafter : after.Sited [] := by
      obtain ⟨rest, hrest, -⟩ := hsited.next hnext hend
      obtain rfl : rest = [] := Option.some.inj (hrest.rest_eq.symm.trans (rest_of_all hstart hnext hlexeme))
      exact hrest
    obtain ⟨last, -, hreading⟩ := hsited.reading_of_last hnext hend hafter
    refine ⟨token, last.token, ?_, hfound, hlexeme, by simpa [hoffset] using hspan⟩
    rw [tokenize, feed_eq_reading, hreading]
    rfl

/-- What a lexer cannot read on its way through a source is the error of that source. -/
theorem Reads.tokenize_eq_error {deliveries : List Delivery} {last after : Lexer} {error : ParseError}
    (h : Reads (start options source) deliveries last) (hnext : last.next = (.error error, after)) :
    tokenize options source = .error error := by
  obtain ⟨text, hsited, -⟩ := sited_start options source
  rw [tokenize, feed_eq_reading, h.reading_eq hsited, reading_of_error hnext]
  rfl

end LuaSyntax.Lexer
