import LuaSyntax.Proofs.Reading.Guarded.Brackets
import LuaSyntax.Proofs.Reading.Guarded.Numerals

/-!
# Guarded reading of lexemes

The first byte decides what is read, sometimes with one or two more. Everything that a byte can decide is ASCII; only a
name may begin with a longer character, and what begins nothing is shown as a whole character in the error.
-/

namespace LuaSyntax

namespace Guarded

variable (source : Text)

/-- Reads a name, and finds out which token is spelled so. -/
def name (dialect : Dialect) (extended : Bool) : Guarded TokenValue := do
  let start ← here
  passOver source (atCharacter source extended (NameCharacter.isPart extended)) (turns source)
  let text ← shown source start.offset 0
  pure (Lexeme.word dialect (String.ofList text))

/-- Stops with the error that no token begins with the character that is next. -/
def unexpected {α : Type} : Guarded α := do
  let place ← here
  wrong source place.offset 1 .unexpectedCharacter []

/-- Reads the token that begins with the byte that is next. -/
def lexeme (options : ParseOptions) : Guarded TokenValue := do
  match ← peek source 0 with
  | none => pure .endOfInput
  | some c => do
    let second ← peek source 1
    let third ← peek source 2
    if c == '\'' || c == '"' then do
      let value ← string source options.dialect c
      pure (.string (String.ofList value))
    else if c.isDigit || (c == '.' && second.any Char.isDigit) then do
      let value ← numeral source options.dialect options.extendedIdentifiers
      pure (.number value)
    else if c == '.' && (second == some '.' && third == some '.') then do
      advance source 3
      pure .vararg
    else if c == '[' && (second == some '[' || second == some '=') then longString source
    else match Lexeme.symbol? options.dialect c second with
      | some symbol => do
        advance source symbol.spelling.length
        pure (.punctuator symbol)
      | none => do
        if ← atCharacter source options.extendedIdentifiers (NameCharacter.isStart options.extendedIdentifiers) then
          name source options.dialect options.extendedIdentifiers
        else unexpected source

end Guarded

/-- A symbol is spelled with the character that it begins with, and perhaps the next. -/
theorem Lexeme.spelling_of_symbol? {dialect : Dialect} {c : Char} {next : Option Char} {symbol : Symbol}
    (h : symbol? dialect c next = some symbol) :
    symbol.spelling.toList = [c] ∨ ∃ d, next = some d ∧ symbol.spelling.toList = [c, d] := by
  simp only [symbol?] at h
  split at h
  all_goals repeat' split at h
  all_goals first
    | (cases h; exact .inl rfl)
    | (cases h; next hnext => exact .inr ⟨_, beq_iff_eq.mp hnext, rfl⟩)
    | (cases h; next hnext => exact .inr ⟨_, beq_iff_eq.mp (Bool.and_eq_true_iff.mp hnext).1, rfl⟩)
    | cases h

namespace Guarded

variable {source text rest : Text} {options : ParseOptions} {place : Place} {c : Char}

/-! ## Names -/

/-- A name is read as the characters that are parts of it. -/
theorem yields_name (dialect : Dialect) (extended : Bool) :
    Yields source text (name source dialect extended) text
      (.ok (Lexeme.word dialect (String.ofList (text.takeWhile (NameCharacter.isPart extended))),
        (text.takeWhile (NameCharacter.isPart extended)).length)) := by
  refine yields_here fun start first hstart hfirst => ?_
  have hoffset := hfirst.offset_add
  have hturns : text.length < turns source := lt_turns (by omega)
  obtain ⟨stop, hrun, hstop⟩ := leads_passOver (fun rest => leads_atNamePart source rest extended)
    (Text.isLineEnd_of_isPart extended) hturns first hfirst
  have hparts := hfirst
  rw [← List.takeWhile_append_dropWhile (p := NameCharacter.isPart extended) (l := text)] at hparts
  refine ⟨stop, hrun.bind ((gives_shown_between hparts hstop).bind (gives_pure _ stop)), ?_⟩
  rwa [reach, show text.drop (text.takeWhile (NameCharacter.isPart extended)).length = _ from Text.drop_countWhile _ text]

/-- One byte ahead covers one character. -/
theorem covering_one (c : Char) (rest : Text) : Text.covering 1 (c :: rest) = [c] := by
  have hpos := c.utf8Size_pos
  rw [Text.covering, if_neg Nat.one_ne_zero, show 1 - c.utf8Size = 0 by omega, Text.covering_zero]

/-- A character that begins nothing is unexpected. -/
theorem yields_unexpected {α : Type} (hsmall : source.size + 1 < 2 ^ 32) :
    Yields source (c :: rest) (unexpected source : Guarded α) (c :: rest)
      (.error (.after (c :: rest) 0 .unexpectedCharacter [[c]])) := by
  refine yields_from fun first hstart => ?_
  have hwrong := @yields_wrong α source (c :: rest) first.offset 0 1 hsmall hstart .unexpectedCharacter []
  rwa [Escape.fault, List.drop_zero, covering_one, List.take_zero, List.nil_append, List.nil_append] at hwrong

/-! ## Symbols -/

/-- The characters of a symbol are single bytes and end no line. -/
theorem mem_spelling (symbol : Symbol) :
    ∀ c ∈ symbol.spelling.toList, c.toNat < 0x80 ∧ Text.isLineEnd c = false := by
  have hall : (symbol.spelling.toList.all fun c => decide (c.toNat < 0x80) && !(Text.isLineEnd c)) = true := by
    cases symbol <;> rfl
  exact fun c hc => by simpa using List.all_eq_true.mp hall c hc

/-- A symbol is passed over by its bytes. -/
theorem leads_symbol {dialect : Dialect} {symbol : Symbol} (h : Lexeme.symbol? dialect c rest.head? = some symbol) :
    Leads source (advance source symbol.spelling.length) (c :: rest) () ((c :: rest).drop symbol.spelling.length) := by
  obtain ⟨behind, hbehind⟩ : ∃ behind, c :: rest = symbol.spelling.toList ++ behind := by
    obtain hone | ⟨d, hd, htwo⟩ := Lexeme.spelling_of_symbol? h
    · exact ⟨rest, by rw [hone]; rfl⟩
    · obtain ⟨more, rfl⟩ := List.head?_eq_some_iff.mp hd
      exact ⟨more, by rw [htwo]; rfl⟩
  rw [hbehind, ← String.length_toList, List.drop_left]
  exact leads_advance_ascii (mem_spelling symbol) rfl

/-- The second byte tells symbols apart as the second character does. -/
theorem symbol?_map_front (dialect : Dialect) (c : Char) (next : Option Char) :
    Lexeme.symbol? dialect c (next.map Text.front) = Lexeme.symbol? dialect c next := by
  have hbeq (d : Char) (hd : d.toNat < 0x80) := Text.map_front_beq hd next
  simp only [Lexeme.symbol?, hbeq '.' (by decide), hbeq '=' (by decide), hbeq '>' (by decide), hbeq '<' (by decide),
    hbeq ':' (by decide), hbeq '/' (by decide)]

/-- No symbol begins with a character of several bytes. -/
theorem symbol?_of_ge {dialect : Dialect} (h : 0x80 ≤ c.toNat) (next : Option Char) :
    Lexeme.symbol? dialect c next = none := by
  cases hsymbol : Lexeme.symbol? dialect c next with
  | none => rfl
  | some symbol =>
    have hmem : c ∈ symbol.spelling.toList := by
      obtain hone | ⟨d, -, htwo⟩ := Lexeme.spelling_of_symbol? hsymbol
      · rw [hone]; exact List.mem_cons_self
      · rw [htwo]; exact List.mem_cons_self
    have hlt := (mem_spelling symbol c hmem).1
    omega

/-! ## Lexemes -/

/-- Two bytes tell which symbol is next, as two characters do. -/
theorem symbol?_latin (dialect : Dialect) (c : Char) (rest : Text) :
    Lexeme.symbol? dialect (Text.front c) (Text.latin (c :: rest))[1]? = Lexeme.symbol? dialect c rest.head? := by
  rcases Nat.lt_or_ge c.toNat 0x80 with hlt | hge
  · rw [Text.second_latin hlt, Text.front_of_lt hlt, symbol?_map_front]
  · rw [symbol?_of_ge (Text.front_ge hge), symbol?_of_ge hge]

/-- What is asked of the bytes behind a character of ASCII may be asked of the characters. -/
theorem and_congr_of_beq {d : Char} {p q : Bool} (h : c = d → p = q) : (c == d && p) = (c == d && q) := by
  by_cases hc : c = d
  · rw [h hc]
  · rw [beq_eq_false_iff_ne.mpr hc, Bool.false_and, Bool.false_and]

/-- A dot stands before a digit if it stands before the byte of one. -/
theorem dot_digit_latin (c : Char) (rest : Text) :
    (c == '.' && (Text.latin (c :: rest))[1]?.any Char.isDigit) = (c == '.' && rest.head?.any Char.isDigit) := by
  refine and_congr_of_beq fun h => ?_
  subst h
  rw [Text.second_latin (by decide), Text.ascii_isDigit.uniform.any_front]

/-- A bracket may open a long string by the byte behind it, as by the character. -/
theorem bracket_latin (c : Char) (rest : Text) :
    (c == '[' && ((Text.latin (c :: rest))[1]? == some '[' || (Text.latin (c :: rest))[1]? == some '=')) =
      (c == '[' && (rest.head? == some '[' || rest.head? == some '=')) := by
  refine and_congr_of_beq fun h => ?_
  subst h
  rw [Text.second_latin (by decide), Text.map_front_beq (by decide), Text.map_front_beq (by decide)]

/-- Two points follow exactly when each of the next characters is one. -/
theorem take_two_beq (rest : Text) :
    (rest.take 2 == ['.', '.']) = (rest.head? == some '.' && (rest.drop 1).head? == some '.') := by
  cases rest with
  | nil => rfl
  | cons c rest => cases rest <;> simp

/-- Three dots are three bytes. -/
theorem dots_latin (c : Char) (rest : Text) :
    (c == '.' && ((Text.latin (c :: rest))[1]? == some '.' && (Text.latin (c :: rest))[2]? == some '.')) =
      (c == '.' && rest.take 2 == ['.', '.']) := by
  refine and_congr_of_beq fun h => ?_
  subst h
  rw [Text.second_latin (by decide), Text.map_front_beq (by decide), take_two_beq]
  cases rest with
  | nil => rfl
  | cons d more =>
    rw [List.head?_cons, Option.some_beq_some]
    refine and_congr_of_beq fun h => ?_
    subst h
    rw [Text.third_latin (by decide) (by decide), Text.map_front_beq (by decide)]
    rfl

/-- Three points are read as the token for variable arguments. -/
theorem yields_vararg (h : (c == '.' && rest.take 2 == ['.', '.']) = true) :
    Yields source (c :: rest) (advance source 3 >>= fun _ => pure TokenValue.vararg) (c :: rest) (.ok (.vararg, 3)) := by
  rw [Bool.and_eq_true, beq_iff_eq, beq_iff_eq] at h
  obtain ⟨rfl, htake⟩ := h
  have hdots : ∀ d ∈ ['.', '.', '.'], d.toNat < 0x80 ∧ Text.isLineEnd d = false := fun d hd => by
    obtain rfl : d = '.' := by simpa using hd
    exact ⟨by decide, rfl⟩
  have hparts : '.' :: rest = ['.', '.', '.'] ++ rest.drop 2 := by
    conv_lhs => rw [← List.take_append_drop 2 rest, htake]
    rfl
  have hdrop : ('.' :: rest).drop 3 = rest.drop 2 := rfl
  rw [hparts]
  exact (leads_advance_ascii hdots rfl).bind_yields (yields_pure (by rw [← hparts, hdrop]) _)

/-- A numeral starts with a digit or with a point in front of one. -/
theorem starts_of_digit (h : (c.isDigit || (c == '.' && rest.head?.any Char.isDigit)) = true) :
    Numeral.Starts (c :: rest) := by
  rw [Bool.or_eq_true, Bool.and_eq_true, beq_iff_eq] at h
  rcases h with hdigit | ⟨rfl, hdigit⟩
  · exact ⟨[], c, rest, rfl, by simp, hdigit⟩
  · cases rest with
    | nil => cases hdigit
    | cons d rest => exact ⟨['.'], d, rest, rfl, by simp, hdigit⟩

/-- A lexeme is read as by a reader of characters. -/
theorem yields_lexeme (hsmall : source.size + 1 < 2 ^ 32) (hplace : place.Marks source text) (options : ParseOptions) :
    Yields source text (lexeme source options) text (Lexeme.read options place.line text) := by
  refine leads_peek.bind_yields ?_
  cases text with
  | nil =>
    have hend : Leads source (pure TokenValue.endOfInput) [] .endOfInput (List.drop 0 []) := leads_pure _
    exact hend.yields
  | cons c rest =>
    rw [List.head?_cons, Option.map_some]
    refine (leads_peek_any 1).bind_yields ((leads_peek_any 2).bind_yields ?_)
    rw [Text.front_beq (by decide), Text.front_beq (by decide), Text.front_beq (by decide), Text.front_beq (by decide),
      Text.ascii_isDigit.uniform.front, symbol?_latin, dot_digit_latin, dots_latin, bracket_latin, Lexeme.read]
    dsimp only
    by_cases hquote : (c == '\'' || c == '"') = true
    · have hascii := ascii_of_either ⟨by decide, rfl⟩ ⟨by decide, rfl⟩ hquote
      rw [if_pos hquote, if_pos hquote, Text.front_of_lt hascii.1]
      exact (yields_string hsmall hascii.1 hascii.2).map fun value => TokenValue.string (String.ofList value)
    rw [if_neg hquote, if_neg hquote]
    by_cases hdigit : (c.isDigit || c == '.' && rest.head?.any Char.isDigit) = true
    · rw [if_pos hdigit, if_pos hdigit]
      exact (yields_numeral options.dialect options.extendedIdentifiers hsmall (starts_of_digit hdigit)).map
        TokenValue.number
    rw [if_neg hdigit, if_neg hdigit]
    by_cases hvararg : (c == '.' && rest.take 2 == ['.', '.']) = true
    · rw [if_pos hvararg, if_pos hvararg]
      exact yields_vararg hvararg
    rw [if_neg hvararg, if_neg hvararg]
    by_cases hbracket : (c == '[' && (rest.head? == some '[' || rest.head? == some '=')) = true
    · rw [if_pos hbracket, if_pos hbracket]
      obtain rfl : c = '[' := beq_iff_eq.mp (Bool.and_eq_true_iff.mp hbracket).1
      exact yields_longString hsmall hplace
    rw [if_neg hbracket, if_neg hbracket]
    cases hsymbol : Lexeme.symbol? options.dialect c rest.head? with
    | some symbol => exact (leads_symbol hsymbol).bind_yields (yields_pure rfl _)
    | none =>
      have hstart : options.extendedIdentifiers = false →
          Text.Ascii (NameCharacter.isStart options.extendedIdentifiers) := fun h => h ▸ Text.ascii_isStart
      refine (leads_atCharacter hstart source (c :: rest)).bind_yields ?_
      rw [List.head?_cons, Option.any_some]
      dsimp only
      by_cases hname : NameCharacter.isStart options.extendedIdentifiers c = true
      · rw [if_pos hname, if_pos hname]
        exact yields_name options.dialect options.extendedIdentifiers
      · rw [if_neg hname, if_neg hname]
        exact yields_unexpected hsmall

end Guarded

end LuaSyntax
