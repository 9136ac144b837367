import Mathlib.Data.List.Infix
import LuaSyntax.Proofs.Reading.Lexemes
import LuaSyntax.Token.Lexer

/-!
# Lexers in a growing source

A lexer that stands at a place of a source stands at the same place of a longer one, and reads there
the same token, as long as that token ends before the end of the shorter source. So a source may be
read up to some token, and later, when more of it is there, from that token on.
-/

namespace LuaSyntax

variable {options : ParseOptions} {source text more : Text} {place : Place}

/-! ## Between tokens -/

namespace Trivia

/-- The text behind the blanks and comments at its front. -/
def behind (text : Text) : Text := text.drop (pieces Trivium.piece 0 text).covered.length

/-- Blanks and comments are the front of the text that they are read from. -/
theorem covered_append_behind (text : Text) :
    (pieces Trivium.piece 0 text).covered ++ behind text = text :=
  (List.prefix_append_drop (pieces_covered Trivium.piece 0 text)).symm

/-- A token is read where neither a blank nor a comment stands. -/
theorem piece_behind (h : (pieces Trivium.piece 0 text).failure = none) {c : Char} {rest : Text}
    (hb : behind text = c :: rest) : Trivium.piece (c :: rest) = .stop := by
  have := piece_of_pieces h
  rw [Nat.zero_add, ← behind, hb] at this
  exact this.resolve_left (List.cons_ne_nil c rest)

/-- The offset behind what is collected is farther by its size. -/
theorem offset_collect (row : List (Text × Trivium)) (place : Place) :
    (collect options source place row).2.offset =
      place.offset + Text.size (row.map Prod.fst).flatten := by
  induction row generalizing place with
  | nil => rfl
  | cons first others ih =>
    obtain ⟨text, trivium⟩ := first
    cases trivium <;> simp [collect, ih, Nat.add_assoc]

/-- What is collected does not depend on what follows in the source. -/
theorem collect_append (row : List (Text × Trivium)) (place : Place)
    (h : place.offset + Text.size (row.map Prod.fst).flatten ≤ Text.size source) :
    collect options (source ++ more) place row = collect options source place row := by
  induction row generalizing place with
  | nil => rfl
  | cons first others ih =>
    obtain ⟨text, trivium⟩ := first
    simp only [List.map_cons, List.flatten_cons, Text.size_append] at h
    have hrest := ih (place.after text) (by rw [Place.offset_after]; omega)
    simp only [collect, hrest]
    cases trivium with
    | blank => rfl
    | comment value =>
      simp only
      rw [Placement.between_append (by omega) (by rw [Place.offset_after]; omega)]

/-- Where the text behind blanks and comments begins. -/
theorem offset_stop (options : ParseOptions) (source : Text) (place : Place) (text : Text) :
    (read options source place text).stop.offset + Text.size (behind text) =
      place.offset + Text.size text := by
  have hcovered := congrArg Text.size (covered_append_behind text)
  rw [Text.size_append] at hcovered
  simp only [read, offset_collect]
  rw [← Pieces.covered]
  omega

/-- What stands before a token is known once something stands there that is no more of it. -/
theorem read_append (hplace : place.offset + Text.size text ≤ Text.size source)
    (hclosed : (read options source place text).unfinished = false) {c : Char} {rest : Text}
    (hb : behind text = c :: rest) (hdash : rest = [] → c ≠ '-') :
    read options (source ++ more) place (text ++ more) =
      { read options source place text with rest := behind text ++ more } := by
  have hnone : (pieces Trivium.piece 0 text).failure = none := by
    simpa [read] using hclosed
  have hsame : pieces Trivium.piece 0 (text ++ more) = pieces Trivium.piece 0 text := by
    apply pieces_append Trivium.piece_firm hnone
    · rw [Nat.zero_add, ← behind, hb]
      exact List.cons_ne_nil c rest
    · rw [Nat.zero_add, ← behind, hb]
      exact Trivium.piece_stop_append (piece_behind hnone hb) hdash
  have hcovered := congrArg Text.size (covered_append_behind text)
  rw [Text.size_append] at hcovered
  have hdrop : (text ++ more).drop (pieces Trivium.piece 0 text).covered.length =
      behind text ++ more :=
    List.drop_append_of_le_length (pieces_covered Trivium.piece 0 text).length_le
  simp only [read, hsame]
  rw [hdrop, collect_append]
  rw [← Pieces.covered]
  omega

end Trivia

/-! ## Lexers -/

namespace Lexer

variable {lexer after : Lexer} {token : Token} {error : ParseError}

/-- A lexer that stands between two characters of its source, with a text behind it. -/
structure Sited (lexer : Lexer) (text : Text) : Prop where
  rest_eq : lexer.rest = some text
  source_eq : ∃ before, lexer.source = before ++ text ∧ lexer.place.offset = Text.size before

/-- A lexer with more source behind it. -/
def grow (lexer : Lexer) (more : Text) : Lexer :=
  { lexer with source := lexer.source ++ more, rest := lexer.rest.map (· ++ more) }

/-- When the source grows, so does the rest. -/
theorem Sited.rest_grow (h : lexer.Sited text) (more : Text) :
    (lexer.grow more).rest = some (text ++ more) := by
  rw [Lexer.grow, h.rest_eq]
  rfl

/-- A lexer that stands in a text does so in the longer one. -/
theorem Sited.grow (h : lexer.Sited text) (more : Text) : (lexer.grow more).Sited (text ++ more) := by
  obtain ⟨before, hsource, hoffset⟩ := h.source_eq
  exact ⟨h.rest_grow more, before, by rw [Lexer.grow, hsource, List.append_assoc], hoffset⟩

/-- The offset and the rest make up the source. -/
theorem Sited.size_source (h : lexer.Sited text) :
    lexer.place.offset + Text.size text = Text.size lexer.source := by
  obtain ⟨before, hsource, hoffset⟩ := h.source_eq
  rw [hsource, hoffset, Text.size_append]

/-- A lexer whose offset is known to be between two characters can be told to go on there. -/
theorem Sited.eq_resume (h : lexer.Sited text) (hc : lexer.comments = []) :
    lexer = resume lexer.options lexer.source lexer.place := by
  obtain ⟨before, hsource, hoffset⟩ := h.source_eq
  have hrest := h.rest_eq
  cases lexer
  simp only [resume] at *
  rw [hoffset, hsource, Text.dropBytes_size, hrest, hc]

/-- To go on in a longer source is to go on and let the source grow. -/
theorem resume_append (h : place.offset ≤ Text.size source) :
    resume options (source ++ more) place = (resume options source place).grow more := by
  simp only [resume, grow, Text.dropBytes_append h]

/-- The lexer at the start has the options given. -/
theorem options_start (options : ParseOptions) (source : Text) :
    (start options source).options = options := by
  rw [start, skipShebang]
  split <;> rfl

/-- The lexer at the start has the source given. -/
theorem source_start (options : ParseOptions) (source : Text) :
    (start options source).source = source := by
  rw [start, skipShebang]
  split <;> rfl

/-- The lexer at the start has no comments. -/
theorem comments_start (options : ParseOptions) (source : Text) :
    (start options source).comments = [] := by
  rw [start, skipShebang]
  split <;> rfl

/-- A source with a shebang is read from behind it. -/
theorem start_of_shebang (h : source.take 2 = ['#', '!']) :
    start options source =
      { resume options source .start with
        place := { Place.start with offset := Text.size (Trivium.restOfLine source) }
        rest := some (source.drop (Trivium.restOfLine source).length) } := by
  rw [start, skipShebang, if_pos]
  · rfl
  · simp [resume, h, Place.start]

/-- A source without a shebang is read from its start. -/
theorem start_of_not_shebang (h : source.take 2 ≠ ['#', '!']) :
    start options source = resume options source .start := by
  rw [start, skipShebang, if_neg]
  simpa [resume, Place.start] using h

/-- The lexer at the start stands in a text no longer than the source. -/
theorem sited_start (options : ParseOptions) (source : Text) :
    ∃ text, (start options source).Sited text ∧ text.length ≤ source.length := by
  by_cases hshebang : source.take 2 = ['#', '!']
  · rw [start_of_shebang hshebang]
    refine ⟨_, ⟨rfl, Trivium.restOfLine source, ?_, rfl⟩, by simp⟩
    exact List.prefix_append_drop (List.takeWhile_prefix _)
  · rw [start_of_not_shebang hshebang]
    refine ⟨source, ⟨?_, [], rfl, rfl⟩, Nat.le_refl _⟩
    cases source <;> rfl

/-- Whether the first line is special is known once something stands behind the beginning, unless
that is a hash. -/
theorem start_append (h : (start options source).Sited text) (hne : text ≠ [])
    (hhash : text ≠ ['#']) :
    start options (source ++ more) = (start options source).grow more := by
  by_cases hshebang : source.take 2 = ['#', '!']
  · have hline : (Trivium.restOfLine source).length < source.length := by
      have hrest := h.rest_eq
      rw [start_of_shebang hshebang, Option.some.injEq] at hrest
      rw [← hrest, ← List.length_pos_iff, List.length_drop] at hne
      omega
    have hsame : Trivium.restOfLine (source ++ more) = Trivium.restOfLine source :=
      Text.takeWhile_append_of_lt _ hline
    have hlater : (source ++ more).take 2 = ['#', '!'] := by
      rcases source with _ | ⟨c, _ | ⟨d, rest⟩⟩
      · cases hshebang
      · cases hshebang
      · exact hshebang
    rw [start_of_shebang hshebang, start_of_shebang hlater]
    simp only [hsame, grow, resume, Option.map_some, List.drop_append_of_le_length hline.le]
  · have hlater : (source ++ more).take 2 ≠ ['#', '!'] := by
      obtain rfl : source = text := by
        have hrest := h.rest_eq
        rw [start_of_not_shebang hshebang] at hrest
        cases source with
        | nil => simpa [resume, Text.dropBytes] using hrest
        | cons c rest => simpa [resume, Text.dropBytes, Place.start] using hrest
      rcases source with _ | ⟨c, _ | ⟨d, rest⟩⟩
      · exact absurd rfl hne
      · simp only [List.cons_append, List.nil_append, List.take_succ_cons, ne_eq, List.cons.injEq,
          not_and]
        rintro rfl
        exact absurd rfl hhash
      · exact hshebang
    rw [start_of_not_shebang hshebang, start_of_not_shebang hlater, resume_append (Nat.zero_le _)]

/-! ## One token -/

/-- What stands before the next token of a lexer with a text behind it. -/
def trivia (lexer : Lexer) (text : Text) : Trivia :=
  .read lexer.options lexer.source lexer.place text

/-- The lexer behind a lexeme of that many characters. -/
def behind (lexer : Lexer) (text : Text) (length : Nat) : Lexer :=
  { lexer with
    place := (lexer.trivia text).stop.after ((Trivia.behind text).take length)
    rest := some ((Trivia.behind text).drop length)
    comments := lexer.comments ++ (lexer.trivia text).comments }

/-- The token that a lexer makes of a lexeme of that many characters. -/
def tokenOf (lexer : Lexer) (text : Text) (value : TokenValue) (length : Nat) : Token :=
  { value
    start := (lexer.trivia text).stop
    stop := (lexer.trivia text).stop.after ((Trivia.behind text).take length)
    lexeme := String.ofList ((Trivia.behind text).take length) }

/-- A lexer reads a token if no comment is open and there is a lexeme. -/
theorem next_eq_ok (h : lexer.rest = some text) :
    lexer.next = (.ok token, after) ↔
      (lexer.trivia text).unfinished = false ∧ ∃ value length,
        Lexeme.read lexer.options (lexer.trivia text).stop.line (Trivia.behind text) =
          .ok (value, length) ∧
        token = lexer.tokenOf text value length ∧ after = lexer.behind text length := by
  have hrest : (lexer.trivia text).rest = Trivia.behind text := rfl
  simp only [next, h]
  rw [← trivia, hrest]
  cases hu : (lexer.trivia text).unfinished with
  | true => simp
  | false =>
    cases hr : Lexeme.read lexer.options (lexer.trivia text).stop.line (Trivia.behind text) with
    | error fault => simp
    | ok found =>
      obtain ⟨value, length⟩ := found
      simp only [Bool.false_eq_true, if_false, Prod.mk.injEq, Except.ok.injEq, true_and]
      constructor
      · rintro ⟨rfl, rfl⟩
        exact ⟨value, length, ⟨rfl, rfl⟩, rfl, rfl⟩
      · rintro ⟨_, _, ⟨rfl, rfl⟩, rfl, rfl⟩
        exact ⟨rfl, rfl⟩

/-- A lexer that fails although the text goes on stands before something that is no token. -/
theorem next_eq_error (h : lexer.rest = some text) (hn : lexer.next = (.error error, after))
    (hend : error.endOfInput = false) :
    (lexer.trivia text).unfinished = false ∧ ∃ fault,
      Lexeme.read lexer.options (lexer.trivia text).stop.line (Trivia.behind text) = .error fault ∧
        fault.endOfInput = false := by
  have hrest : (lexer.trivia text).rest = Trivia.behind text := rfl
  simp only [next, h] at hn
  rw [← trivia, hrest] at hn
  cases hu : (lexer.trivia text).unfinished with
  | true =>
    rw [hu, if_pos rfl] at hn
    cases hn
    simp [Fault.toError, Fault.after] at hend
  | false =>
    rw [hu, if_neg Bool.false_ne_true] at hn
    cases hr : Lexeme.read lexer.options (lexer.trivia text).stop.line (Trivia.behind text) with
    | ok found => simp [hr] at hn
    | error fault =>
      simp only [hr] at hn
      cases hn
      exact ⟨rfl, fault, rfl, hend⟩

/-- The next token fails where its lexeme does. -/
theorem next_of_fault {fault : Fault} (h : lexer.rest = some text)
    (hclosed : (lexer.trivia text).unfinished = false)
    (hr : Lexeme.read lexer.options (lexer.trivia text).stop.line (Trivia.behind text) =
      .error fault) :
    ∃ error after, lexer.next = (.error error, after) ∧ error.endOfInput = fault.endOfInput := by
  have hrest : (lexer.trivia text).rest = Trivia.behind text := rfl
  simp only [next, h]
  rw [← trivia, hrest, hclosed, if_neg Bool.false_ne_true, hr]
  exact ⟨_, _, rfl, rfl⟩

/-- At the end of its source a lexer reads the end of the input. -/
theorem Sited.next_nil (h : lexer.Sited []) :
    ∃ token after, lexer.next = (.ok token, after) ∧ token.isEnd = true :=
  ⟨_, _, (next_eq_ok h.rest_eq).mpr ⟨rfl, .endOfInput, 0, rfl, rfl, rfl⟩, rfl⟩

/-- A token has at least one character, unless it is the end of the input. -/
theorem length_of_next (h : lexer.rest = some text) (hn : lexer.next = (.ok token, after)) :
    (token.isEnd = true ∧ Trivia.behind text = []) ∨
      (token.isEnd = false ∧ ∃ length, 1 ≤ length ∧
        after.rest = some ((Trivia.behind text).drop length)) := by
  obtain ⟨-, value, length, hr, rfl, rfl⟩ := (next_eq_ok h).mp hn
  cases hb : Trivia.behind text with
  | nil =>
    rw [hb] at hr
    cases hr
    exact .inl ⟨rfl, rfl⟩
  | cons c rest =>
    rw [hb] at hr
    obtain ⟨hvalue, hpos⟩ := Lexeme.read_cons hr
    exact .inr ⟨by simpa [Token.isEnd, tokenOf] using hvalue, length, hpos, by rw [behind, hb]⟩

/-- What is behind the trivia is no longer than the text. -/
theorem length_behind_le (text : Text) : (Trivia.behind text).length ≤ text.length := by
  rw [Trivia.behind, List.length_drop]
  omega

/-- Behind a lexeme a lexer stands between two characters again. -/
theorem Sited.behind (h : lexer.Sited text) (length : Nat) :
    (lexer.behind text length).Sited ((Trivia.behind text).drop length) := by
  obtain ⟨before, hsource, hoffset⟩ := h.source_eq
  refine ⟨rfl, before ++ (pieces Trivium.piece 0 text).covered ++
    (Trivia.behind text).take length, ?_, ?_⟩
  · rw [Lexer.behind, List.append_assoc, List.append_assoc, List.take_append_drop,
      Trivia.covered_append_behind, hsource]
  · have hstop := Trivia.offset_stop lexer.options lexer.source lexer.place text
    have hcovered := congrArg Text.size (Trivia.covered_append_behind text)
    rw [Text.size_append] at hcovered
    rw [← trivia] at hstop
    rw [Lexer.behind, Place.offset_after, Text.size_append, Text.size_append]
    omega

/-- Behind a token a lexer stands between two characters, and has less text behind it. -/
theorem Sited.next (h : lexer.Sited text) (hn : lexer.next = (.ok token, after))
    (hend : token.isEnd = false) : ∃ rest, after.Sited rest ∧ rest.length < text.length := by
  obtain ⟨-, value, length, hr, rfl, rfl⟩ := (next_eq_ok h.rest_eq).mp hn
  refine ⟨_, h.behind length, ?_⟩
  have hle := length_behind_le text
  cases hb : Trivia.behind text with
  | nil =>
    rw [hb] at hr
    cases hr
    cases hend
  | cons c rest =>
    rw [hb] at hr hle
    have := (Lexeme.read_cons hr).2
    simp only [List.length_drop, List.length_cons] at hle ⊢
    omega

/-- A lexer stands where its token ends. -/
theorem place_next (h : lexer.rest = some text) (hn : lexer.next = (.ok token, after)) :
    after.place = token.stop := by
  obtain ⟨-, _, _, -, rfl, rfl⟩ := (next_eq_ok h).mp hn
  rfl

/-- The options stay when a token is read. -/
theorem options_next (h : lexer.rest = some text) (hn : lexer.next = (.ok token, after)) :
    after.options = lexer.options := by
  obtain ⟨-, _, _, -, -, rfl⟩ := (next_eq_ok h).mp hn
  rfl

/-- The source stays when a token is read. -/
theorem source_next (h : lexer.rest = some text) (hn : lexer.next = (.ok token, after)) :
    after.source = lexer.source := by
  obtain ⟨-, _, _, -, -, rfl⟩ := (next_eq_ok h).mp hn
  rfl

/-- A token begins where its lexer stands or behind it, and ends where it begins or behind that. -/
theorem offset_le_of_next (h : lexer.rest = some text) (hn : lexer.next = (.ok token, after)) :
    lexer.place.offset ≤ token.start.offset ∧ token.start.offset ≤ token.stop.offset := by
  obtain ⟨-, value, length, -, rfl, -⟩ := (next_eq_ok h).mp hn
  constructor
  · rw [tokenOf, trivia, Trivia.read, Trivia.offset_collect]
    exact Nat.le_add_right _ _
  · rw [tokenOf, Place.offset_after]
    exact Nat.le_add_right _ _

/-- A token has at least one byte. -/
theorem start_lt_stop_of_next (h : lexer.rest = some text) (hn : lexer.next = (.ok token, after))
    (hend : token.isEnd = false) : token.start.offset < token.stop.offset := by
  obtain ⟨-, value, length, hr, rfl, rfl⟩ := (next_eq_ok h).mp hn
  simp only [tokenOf, Place.offset_after]
  cases hb : Trivia.behind text with
  | nil =>
    rw [hb] at hr
    cases hr
    cases hend
  | cons c rest =>
    rw [hb] at hr
    obtain ⟨length, rfl⟩ := Nat.exists_eq_succ_of_ne_zero
      (Nat.pos_iff_ne_zero.mp (Lexeme.read_cons hr).2)
    have := c.utf8Size_pos
    rw [List.take_succ_cons, Text.size_cons]
    omega

/-- A token moves a lexer on. -/
theorem offset_lt_of_next (h : lexer.rest = some text) (hn : lexer.next = (.ok token, after))
    (hend : token.isEnd = false) : lexer.place.offset < after.place.offset := by
  rw [place_next h hn]
  exact Nat.lt_of_le_of_lt (offset_le_of_next h hn).1 (start_lt_stop_of_next h hn hend)

/-- Whether a lexer has come to a token of which the text holds only the beginning, and of which that
beginning is no token. -/
def CutShort (lexer : Lexer) : Prop :=
  ∃ text, lexer.rest = some text ∧ (lexer.trivia text).unfinished = false ∧
    Lexeme.Cut lexer.options (Trivia.behind text)

/-! ## More source -/

variable (more) in
/-- What stands between two tokens stays when more follows, unless it may be the start of a comment. -/
theorem trivia_grow (h : lexer.Sited text) (hclosed : (lexer.trivia text).unfinished = false)
    {c : Char} {rest : Text} (hb : Trivia.behind text = c :: rest) (hdash : rest = [] → c ≠ '-') :
    (lexer.grow more).trivia (text ++ more) =
      { lexer.trivia text with rest := Trivia.behind text ++ more } :=
  Trivia.read_append h.size_source.le hclosed hb hdash

/-- A dash alone is a token. -/
theorem read_dash (options : ParseOptions) (line : Nat) :
    Lexeme.read options line ['-'] = .ok (.punctuator .minus, 1) := rfl

/-- A token that ends before the end of the source is the same token in a longer source. -/
theorem next_grow (h : lexer.Sited text) (hn : lexer.next = (.ok token, after))
    (hend : token.isEnd = false) (hstop : token.stop.offset < Text.size lexer.source) :
    (lexer.grow more).next = (.ok token, after.grow more) := by
  obtain ⟨hclosed, value, length, hr, rfl, rfl⟩ := (next_eq_ok h.rest_eq).mp hn
  have hsize := Trivia.offset_stop lexer.options lexer.source lexer.place text
  rw [← trivia, h.size_source] at hsize
  rw [tokenOf, Place.offset_after] at hstop
  have hl : length < (Trivia.behind text).length := by
    by_contra hge
    rw [List.take_of_length_le (by omega)] at hstop
    omega
  cases hb : Trivia.behind text with
  | nil =>
    rw [hb] at hl
    cases hl
  | cons c rest =>
    have hdash : rest = [] → c ≠ '-' := by
      rintro rfl rfl
      rw [hb, read_dash] at hr
      cases hr
      rw [hb] at hl
      exact absurd hl (by decide)
    have htrivia := trivia_grow more h hclosed hb hdash
    have hbehind : Trivia.behind (text ++ more) = Trivia.behind text ++ more :=
      congrArg Trivia.rest htrivia
    rw [next_eq_ok (h.rest_grow more)]
    refine ⟨by rw [htrivia]; exact hclosed, value, length, ?_, ?_, ?_⟩
    · rw [htrivia, hbehind]
      exact Lexeme.read_append hr hl
    · rw [tokenOf, tokenOf, htrivia, hbehind, List.take_append_of_le_length hl.le]
    · rw [behind, behind, htrivia, hbehind, List.take_append_of_le_length hl.le,
        List.drop_append_of_le_length hl.le]
      rfl

variable (more) in
/-- A lexer that fails although the text goes on fails in a longer source, unless a token was cut
short. -/
theorem next_error_grow (h : lexer.Sited text) (hn : lexer.next = (.error error, after))
    (hend : error.endOfInput = false) (hcut : ¬ Lexeme.Cut lexer.options (Trivia.behind text)) :
    ∃ error' after', (lexer.grow more).next = (.error error', after') := by
  obtain ⟨hclosed, fault, hr, hfault⟩ := next_eq_error h.rest_eq hn hend
  cases hb : Trivia.behind text with
  | nil =>
    rw [hb] at hr
    cases hr
  | cons c rest =>
    have hdash : rest = [] → c ≠ '-' := by
      rintro rfl rfl
      rw [hb, read_dash] at hr
      cases hr
    have htrivia := trivia_grow more h hclosed hb hdash
    have hbehind : Trivia.behind (text ++ more) = Trivia.behind text ++ more :=
      congrArg Trivia.rest htrivia
    obtain ⟨fault', hlater⟩ := Lexeme.read_error_append more hr hfault hcut
    obtain ⟨error', after', hnext, -⟩ := next_of_fault (h.rest_grow more)
      (by rw [htrivia]; exact hclosed) (by rw [htrivia, hbehind]; exact hlater)
    exact ⟨error', after', hnext⟩

/-- What was cut short can be finished: then it is a token that the source ends with. -/
theorem next_completed (h : lexer.Sited text) (hclosed : (lexer.trivia text).unfinished = false)
    (hcut : Lexeme.Cut lexer.options (Trivia.behind text)) :
    ∃ more token after, (lexer.grow more).next = (.ok token, after) ∧ token.isEnd = false ∧
      after.Sited [] := by
  obtain ⟨more, value, hlater⟩ :=
    Lexeme.read_completed (lexer.trivia text).stop.line hcut
  cases hb : Trivia.behind text with
  | nil =>
    rw [hb] at hcut
    rcases hcut with ⟨-, hcut⟩ | ⟨hcut, -⟩ <;> cases hcut
  | cons c rest =>
    have hdash : rest = [] → c ≠ '-' := by
      rintro rfl rfl
      rw [hb] at hcut
      rcases hcut with ⟨-, hcut⟩ | ⟨hcut, -⟩
      · exact absurd hcut (by decide)
      · exact absurd hcut (by decide)
    have htrivia := trivia_grow more h hclosed hb hdash
    have hbehind : Trivia.behind (text ++ more) = Trivia.behind text ++ more :=
      congrArg Trivia.rest htrivia
    have hgrown := h.grow more
    have hnext : (lexer.grow more).next =
        (.ok ((lexer.grow more).tokenOf (text ++ more) value (Trivia.behind (text ++ more)).length),
          (lexer.grow more).behind (text ++ more) (Trivia.behind (text ++ more)).length) := by
      rw [next_eq_ok hgrown.rest_eq]
      refine ⟨by rw [htrivia]; exact hclosed, value, _, ?_, rfl, rfl⟩
      rw [htrivia, hbehind]
      exact hlater
    refine ⟨more, _, _, hnext, ?_, ?_⟩
    · rw [hb, List.cons_append] at hlater
      have hvalue := (Lexeme.read_cons hlater).1
      simpa [Token.isEnd, tokenOf] using hvalue
    · have hsited := hgrown.behind (Trivia.behind (text ++ more)).length
      rwa [List.drop_length] at hsited

end Lexer

end LuaSyntax
