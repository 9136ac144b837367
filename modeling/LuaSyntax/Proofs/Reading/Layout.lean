import LuaSyntax.Proofs.Reading.Apart.Lexemes
import LuaSyntax.Proofs.Reading.Deliveries
import LuaSyntax.Proofs.Reading.Lengths
import LuaSyntax.Proofs.Reading.Separators

/-!
# Layout

The lexemes of a source can be written down again with any separators between them, and the same tokens are read:
a lexeme is read as before since what stands behind it keeps it apart, and what separates it from the next is
passed over. Where the separators hold no line ends each token begins on the line on which the one before ends.
-/

namespace LuaSyntax

/-- Texts in a row with a separator between any two of them. One may stand behind the last too, before the end. -/
inductive Joined (broken : Bool) : List Text → Text → Prop where
  | nil : Joined broken [] []
  | last (raw : Text) : Joined broken [raw] raw
  | closed (raw : Text) {gap : Text} : Separator broken gap → Joined broken [raw] (raw ++ gap)
  | cons (raw : Text) {next gap text : Text} {raws : List Text} : Separator broken gap →
      Joined broken (next :: raws) text → Joined broken (raw :: next :: raws) (raw ++ (gap ++ text))

/-- Texts in a row, each with anything before it that may stand before a token and kept apart from what is behind
it. -/
inductive Laid (broken : Bool) : List Text → Text → Prop where
  | nil {gap : Text} : Filled broken gap → Laid broken [] gap
  | cons {gap raw behind : Text} {raws : List Text} : Filled broken gap → behind.Apart →
      Laid broken raws behind → Laid broken (raw :: raws) (gap ++ (raw ++ behind))

variable {broken : Bool} {text gap behind : Text} {raws : List Text}

/-- Two fillings one behind the other are a filling. -/
theorem Filled.append {other : Text} (h : Filled broken text) (hother : Filled broken other) :
    Filled broken (text ++ other) := by
  induction h with
  | nil => exact hother
  | cons hpiece _ ih =>
    rw [List.append_assoc]
    exact .cons hpiece ih

/-- Tokens laid out may have a filling in front. -/
theorem Laid.before (h : Laid broken raws text) (hgap : Filled broken gap) : Laid broken raws (gap ++ text) := by
  cases h with
  | nil hfilled => exact .nil (hgap.append hfilled)
  | cons hfilled hapart hlaid =>
    rw [← List.append_assoc]
    exact .cons (hgap.append hfilled) hapart hlaid

/-- Joined tokens are laid out. -/
theorem Joined.laid (h : Joined broken raws text) : Laid broken raws text := by
  induction h with
  | nil => exact .nil .nil
  | last raw =>
    have hlaid : Laid broken [raw] ([] ++ (raw ++ [])) := .cons .nil Text.apart_nil (.nil .nil)
    rwa [List.nil_append, List.append_nil] at hlaid
  | @closed raw gap hgap =>
    have hapart := hgap.apart []
    rw [List.append_nil] at hapart
    exact .cons .nil hapart (.nil hgap.filled)
  | cons raw hgap _ ih => exact .cons .nil (hgap.apart _) (ih.before hgap.filled)

/-- What is joined begins with the first of the texts. -/
theorem Joined.front {raw : Text} (h : Joined broken (raw :: raws) text) :
    ∃ behind, text = raw ++ behind ∧ behind.Apart := by
  cases h with
  | last => exact ⟨[], (List.append_nil _).symm, Text.apart_nil⟩
  | @closed _ gap hgap =>
    have hapart := hgap.apart []
    rw [List.append_nil] at hapart
    exact ⟨gap, rfl, hapart⟩
  | cons _ hgap => exact ⟨_, rfl, hgap.apart _⟩

/-- What a token is wherever it stands. -/
def Token.spelled (token : Token) : TokenValue × String := (token.value, token.lexeme)

/-- A token spelled alike is the end if the other is. -/
theorem Token.isEnd_of_spelled {token token' : Token} (h : token'.spelled = token.spelled) :
    token'.isEnd = token.isEnd := by
  rw [isEnd, isEnd, (Prod.mk.inj h).1]

/-- A token that begins on the line on which the one before ends. -/
def Token.GoesOn (before token : Token) : Prop := token.start.line = before.stop.line

namespace Trivium

/-- What stands before a token ends where there is no blank, no line end and no comment. -/
theorem piece_eq_stop_iff {c : Char} {rest : Text} : piece (c :: rest) = .stop ↔
    Text.isBlank c = false ∧ Text.isLineEnd c = false ∧ ¬ (c = '-' ∧ rest.head? = some '-') := by
  have hcomment : comment? rest.tail ≠ .stop := by
    rw [comment?]
    split <;> simp
  rw [piece]
  cases Text.isBlank c with
  | true => simp
  | false =>
    cases Text.isLineEnd c with
    | true => simp
    | false => by_cases hdashes : c = '-' ∧ rest.head? = some '-' <;> simp [hdashes, hcomment]

/-- What begins a token begins one if it is kept apart from what is behind it. -/
theorem piece_apart {rest : Text} (hbehind : behind.Apart) (hne : text ≠ [])
    (h : piece (text ++ rest) = .stop) : piece (text ++ behind) = .stop := by
  obtain ⟨c, text, rfl⟩ := List.exists_cons_of_ne_nil hne
  obtain ⟨hblank, hend, hdashes⟩ := piece_eq_stop_iff.mp h
  refine piece_eq_stop_iff.mpr ⟨hblank, hend, fun ⟨hc, hnext⟩ => hdashes ⟨hc, ?_⟩⟩
  exact Lexeme.head?_apart hbehind (by decide) text hnext

end Trivium

/-! ## Tokens -/

namespace Lexer

variable {lexer lexer' after last : Lexer} {token : Token} {deliveries : List Delivery}

/-- A token is read again from its lexeme, wherever that is laid. -/
theorem next_laid (h : lexer.rest = some text) (hn : lexer.next = (.ok token, after))
    (hend : token.isEnd = false) (hoptions : lexer'.options = lexer.options)
    (hrest : lexer'.rest = some (gap ++ (token.lexeme.toList ++ behind))) (hgap : Filled broken gap)
    (hbehind : behind.Apart) :
    ∃ token' after', lexer'.next = (.ok token', after') ∧ token'.spelled = token.spelled ∧
      after'.rest = some behind ∧ after'.options = lexer.options ∧
      (broken = false → token'.start.line = lexer'.place.line) := by
  obtain ⟨hclosed, value, length, hread, rfl, rfl⟩ := (next_eq_ok h).mp hn
  have hlength := Lexeme.length_le_of_read hread
  have hstop : Trivium.piece (Trivia.behind text) = .stop := by
    cases hbehind : Trivia.behind text with
    | nil => rfl
    | cons c rest =>
      have hnone : (pieces Trivium.piece 0 text).failure = none := by simpa [trivia, Trivia.read] using hclosed
      exact Trivia.piece_behind hnone hbehind
  have hraw : (lexer.tokenOf text value length).lexeme.toList = (Trivia.behind text).take length := by
    rw [tokenOf, String.toList_ofList]
  rw [hraw] at hrest
  generalize hlexeme : (Trivia.behind text).take length = raw at *
  obtain ⟨hl, hwhole⟩ : raw.length = length ∧ raw ++ (Trivia.behind text).drop length = Trivia.behind text := by
    rw [← hlexeme, List.length_take, List.take_append_drop]
    exact ⟨Nat.min_eq_left hlength, rfl⟩
  have hne : raw ≠ [] := by
    rintro rfl
    rw [← hl] at hread
    cases hnothing : Trivia.behind text with
    | nil =>
      rw [hnothing] at hread
      cases hread
      cases hend
    | cons c rest =>
      rw [hnothing] at hread
      exact absurd (Lexeme.read_cons hread).2 (by simp)
  rw [← hwhole] at hread hstop
  rw [← hl] at hread
  have hstop' := Trivium.piece_apart hbehind hne hstop
  have hpassed := Trivia.behind_of_filled hgap hstop'
  obtain ⟨hclosed', hline⟩ := @Trivia.read_of_filled _ _ _ lexer'.options lexer'.source lexer'.place hgap hstop'
  have hread' (line : Nat) : Lexeme.read lexer'.options line (Trivia.behind (gap ++ (raw ++ behind))) =
      .ok (value, raw.length) := by
    rw [hpassed, hoptions]
    exact Lexeme.read_apart hbehind hne hread line
  refine ⟨_, _, (next_eq_ok hrest).mpr ⟨hclosed', value, raw.length, hread' _, rfl, rfl⟩, ?_, ?_, hoptions, hline⟩
  · rw [Token.spelled, Token.spelled, tokenOf, tokenOf, hpassed, hlexeme, List.take_left]
  · rw [Lexer.behind, hpassed, List.drop_left]

/-- Behind the last token the end is read. -/
theorem next_filled (hrest : lexer.rest = some gap) (hgap : Filled broken gap) :
    ∃ token after, lexer.next = (.ok token, after) ∧ token.isEnd = true ∧
      token.spelled = (Token.endOfInput .start).spelled := by
  have hstop : Trivium.piece [] = .stop := rfl
  have hpassed := Trivia.behind_of_filled hgap hstop
  obtain ⟨hclosed, -⟩ := @Trivia.read_of_filled _ _ _ lexer.options lexer.source lexer.place hgap hstop
  rw [List.append_nil] at hpassed hclosed
  have hread : Lexeme.read lexer.options (lexer.trivia gap).stop.line (Trivia.behind gap) = .ok (.endOfInput, 0) := by
    rw [hpassed]
    rfl
  exact ⟨_, _, (next_eq_ok hrest).mpr ⟨hclosed, .endOfInput, 0, hread, rfl, rfl⟩, rfl, rfl⟩

/-- The end has no text. -/
theorem spelled_of_end (h : lexer.rest = some text) (hn : lexer.next = (.ok token, after))
    (hend : token.isEnd = true) : token.spelled = (Token.endOfInput .start).spelled := by
  obtain ⟨-, value, length, hread, rfl, rfl⟩ := (next_eq_ok h).mp hn
  obtain rfl : value = .endOfInput := beq_iff_eq.mp hend
  cases hnothing : Trivia.behind text with
  | nil => rw [Token.spelled, tokenOf, hnothing, List.take_nil]; rfl
  | cons c rest =>
    rw [hnothing] at hread
    exact absurd rfl (Lexeme.read_cons hread).1

/-- The tokens that some deliveries are of. -/
def spellings (deliveries : List Delivery) : List (TokenValue × String) :=
  deliveries.map fun delivery => delivery.token.spelled

/-- The texts that some deliveries were read from. -/
def lexemes (deliveries : List Delivery) : List Text :=
  deliveries.map fun delivery => delivery.token.lexeme.toList

/-- Tokens are read again from their lexemes, wherever these are laid. -/
theorem Reads.laid (h : Reads lexer deliveries last) (hl : lexer.Sited text)
    (hoptions : lexer'.options = lexer.options) {laid : Text} (hrest : lexer'.rest = some laid)
    (hlaid : Laid broken (lexemes deliveries) laid) :
    ∃ deliveries' last' gap, Reads lexer' deliveries' last' ∧ spellings deliveries' = spellings deliveries ∧
      last'.rest = some gap ∧ Filled broken gap ∧
      (broken = false → ∀ previous : Token, previous.stop.line = lexer'.place.line →
        (previous :: deliveries'.map Delivery.token).IsChain Token.GoesOn) := by
  induction h generalizing lexer' laid text with
  | none =>
    obtain ⟨hgap⟩ := hlaid
    exact ⟨[], lexer', laid, .none lexer', rfl, hrest, hgap, fun _ _ _ => .singleton _⟩
  | @one lexer after last token deliveries hnext hend _ ih =>
    obtain ⟨rest, hafter, -⟩ := hl.next hnext hend
    obtain _ | ⟨hgap, hbehind, hlaid⟩ := hlaid
    obtain ⟨token', after', hnext', hspelled, hrest', hoptions', hline⟩ :=
      next_laid hl.rest_eq hnext hend hoptions hrest hgap hbehind
    have hend' : token'.isEnd = false := (Token.isEnd_of_spelled hspelled).trans hend
    have hsame : after'.drain.2.options = after.drain.2.options :=
      hoptions'.trans (options_next hl.rest_eq hnext).symm
    obtain ⟨deliveries', last', gap, hreads, hspellings, hlast, hfilled, hchain⟩ :=
      ih hafter.drain hsame hrest' hlaid
    refine ⟨_, last', gap, .one hnext' hend' hreads, ?_, hlast, hfilled, fun hbroken previous hprevious => ?_⟩
    · exact congrArg₂ List.cons hspelled hspellings
    · have hstop : token'.stop.line = after'.drain.2.place.line :=
        (congrArg Place.line (place_next hrest hnext')).symm
      exact List.isChain_cons_cons.mpr ⟨(hline hbroken).trans hprevious.symm, hchain hbroken token' hstop⟩

/-! ## Sources -/

/-- A lexeme that begins with a hash is no longer than that. -/
theorem lexeme_of_hash (h : lexer.rest = some text) (hn : lexer.next = (.ok token, after))
    (hend : token.isEnd = false) : ∃ c rest, token.lexeme.toList = c :: rest ∧ (c = '#' → rest = []) := by
  obtain ⟨-, value, length, hread, rfl, rfl⟩ := (next_eq_ok h).mp hn
  rw [tokenOf, String.toList_ofList]
  cases hb : Trivia.behind text with
  | nil =>
    rw [hb] at hread
    cases hread
    cases hend
  | cons c rest =>
    rw [hb] at hread
    obtain ⟨count, rfl⟩ := Nat.exists_eq_succ_of_ne_zero (Nat.pos_iff_ne_zero.mp (Lexeme.read_cons hread).2)
    refine ⟨c, rest.take count, rfl, ?_⟩
    rintro rfl
    cases hread
    rfl

/-- A source that is joined of lexemes names no interpreter. -/
theorem Reads.not_shebang (h : Reads lexer deliveries last) (hl : lexer.Sited text) {laid : Text}
    (hjoined : Joined broken (lexemes deliveries) laid) : laid.take 2 ≠ ['#', '!'] := by
  cases h with
  | none =>
    cases hjoined
    exact nofun
  | @one _ after _ token deliveries hnext hend _ =>
    obtain ⟨behind, rfl, hbehind⟩ := hjoined.front
    obtain ⟨c, rest, hlexeme, hhash⟩ := lexeme_of_hash hl.rest_eq hnext hend
    show (token.lexeme.toList ++ behind).take 2 ≠ ['#', '!']
    rw [hlexeme]
    intro hshebang
    obtain ⟨rfl, htake⟩ := List.cons.inj (show c :: (rest ++ behind).take 1 = '#' :: ['!'] from hshebang)
    rw [hhash rfl, List.nil_append] at htake
    cases behind with
    | nil => cases htake
    | cons d behind =>
      obtain rfl := (List.cons.inj htake).1
      exact absurd (hbehind _ rfl) (by decide)

/-- The lexemes of a source, joined by separators, are the same tokens again. -/
theorem feed_joined {options : ParseOptions} {source laid : Text} {last : Delivery}
    (hending : (feed options source).ending = .ok last) (hlast : last.token.isEnd = true)
    (hjoined : Joined broken (lexemes (feed options source).deliveries) laid) :
    ∃ deliveries' last', feed options laid = ⟨deliveries', .ok last'⟩ ∧ last'.token.isEnd = true ∧
      last'.token.spelled = last.token.spelled ∧
      spellings deliveries' = spellings (feed options source).deliveries ∧
      (broken = false →
        (Token.endOfInput .start :: deliveries'.map Delivery.token).IsChain Token.GoesOn) := by
  obtain ⟨text, hsited, -⟩ := sited_start options source
  obtain ⟨stop, hreads, hstop⟩ := hsited.reads_reading
  rw [feed_eq_reading options source] at hending hjoined ⊢
  have hstart : start options laid = resume options laid .start :=
    start_of_not_shebang (hreads.not_shebang hsited hjoined)
  have hrest : (start options laid).rest = some laid := by
    rw [hstart]
    cases laid <;> rfl
  obtain ⟨text', hsited', -⟩ := sited_start options laid
  obtain ⟨deliveries', stop', gap, hreads', hspellings, hgap, hfilled, hchain⟩ :=
    hreads.laid hsited ((options_start _ _).trans (options_start _ _).symm) hrest hjoined.laid
  obtain ⟨token', after', hnext', hend', hspelled'⟩ := next_filled hgap hfilled
  refine ⟨deliveries', ⟨token', after'.comments⟩, ?_, hend', ?_, hspellings, fun hbroken => ?_⟩
  · rw [feed_eq_reading, hreads'.reading_eq hsited', reading_of_end hnext' hend', List.append_nil]
  · obtain ⟨_, _, -, hfailed⟩ | ⟨token, after, hnext, hend, hended⟩ := hstop
    · rw [hending] at hfailed
      cases hfailed
    · obtain rfl := Except.ok.inj (hending.symm.trans hended)
      obtain ⟨rest, hsitedStop, -⟩ := hreads.sited hsited
      exact hspelled'.trans (spelled_of_end hsitedStop.rest_eq hnext hend).symm
  · refine hchain hbroken _ ?_
    rw [hstart]
    rfl

end Lexer

end LuaSyntax
