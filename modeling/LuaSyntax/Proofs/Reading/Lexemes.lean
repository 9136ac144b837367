import LuaSyntax.Proofs.Reading.Brackets
import LuaSyntax.Proofs.Reading.Numerals
import LuaSyntax.Proofs.Reading.Strings
import LuaSyntax.Token.Lexeme

/-!
# Lexemes in a growing text

What stands at the front of a text is told from its first characters. `Lexeme.Found` lists the lexemes
that may stand there, each by what it begins with and what reads it, and `Lexeme.Blamed` what may be
amiss with them; both say all that `Lexeme.read` does.

A token that ends before the end of the text is the same token in every longer text, and a text in
which no token begins has none in a longer text either. The second half has two exceptions, where
the text is blamed although it was only cut short: a tilde that the dialect reads in `~=` alone, and
an integer whose suffix has begun.

## Main statements

- `Lexeme.read_eq_ok_iff`, `Lexeme.read_eq_error_iff`: what is read at a character, and what is blamed.
- `Lexeme.read_append`: a token is the same in a longer text.
- `Lexeme.read_error_append`: what is no token is none in a longer text.
-/

namespace LuaSyntax

/-- With a digit no name begins. -/
theorem NameCharacter.not_isStart_of_isDigit {c : Char} (h : c.isDigit = true) (extended : Bool) :
    isStart extended c = false := by
  rw [Char.isDigit, Bool.and_eq_true, decide_eq_true_eq, decide_eq_true_eq] at h
  have hle : c.toNat ≤ 57 := UInt32.le_iff_toNat_le.mp h.2
  have hletter : c.isAlpha = false := by
    refine Bool.eq_false_iff.mpr fun halpha => ?_
    rcases Bool.or_eq_true_iff.mp halpha with hupper | hlower
    · have hge : 65 ≤ c.toNat := UInt32.le_iff_toNat_le.mp (of_decide_eq_true hupper).1
      omega
    · have hge : 97 ≤ c.toNat := UInt32.le_iff_toNat_le.mp (of_decide_eq_true (Bool.and_eq_true_iff.mp hlower).1)
      omega
  have hline : c ≠ '_' := by
    rintro rfl
    exact absurd hle (by decide)
  simp [isStart, hletter, hline, Nat.not_le_of_lt (show c.toNat < 128 by omega)]

namespace Lexeme

variable {options : ParseOptions} {line : Nat} {text rest more : Text} {c : Char} {value : TokenValue}
  {length : Nat} {fault : Fault}

/-- No symbol is empty. -/
theorem length_spelling_pos (symbol : Symbol) : 1 ≤ symbol.spelling.length := by
  cases symbol <;> decide

/-- A symbol has two characters at most. -/
theorem length_spelling_le (symbol : Symbol) : symbol.spelling.length ≤ 2 := by
  cases symbol <;> decide

/-- No word is the end of the input. -/
theorem word_ne_endOfInput (dialect : Dialect) (name : String) :
    word dialect name ≠ .endOfInput := by
  unfold word
  split
  · exact TokenValue.noConfusion
  · split
    · exact TokenValue.noConfusion
    · split
      · exact TokenValue.noConfusion
      · split <;> exact TokenValue.noConfusion

/-! ## What begins with a character -/

/-- Whether a numeral begins with a character. -/
def IsNumeral (c : Char) (rest : Text) : Prop :=
  (c.isDigit || (c == '.' && rest.head?.any Char.isDigit)) = true

/-- Whether three dots begin with a character. -/
def IsDots (c : Char) (rest : Text) : Prop := c = '.' ∧ rest.take 2 = ['.', '.']

/-- Whether a long bracket begins with a character. -/
def IsBracket (c : Char) (rest : Text) : Prop := c = '[' ∧ (rest.head? = some '[' ∨ rest.head? = some '=')

/-- Whether more begins with a character than a symbol that has it for its first. -/
def IsLonger (c : Char) (rest : Text) : Prop := IsNumeral c rest ∨ IsDots c rest ∨ IsBracket c rest

/-- A numeral begins with a digit or a point. -/
theorem IsNumeral.start (h : IsNumeral c rest) : c.isDigit = true ∨ c = '.' := by
  simp only [IsNumeral, Bool.or_eq_true, Bool.and_eq_true, beq_iff_eq] at h
  exact h.imp_right And.left

/-- What begins with a digit is a numeral. -/
theorem IsNumeral.of_isDigit (h : c.isDigit = true) : IsNumeral c rest := by
  rw [IsNumeral, h, Bool.true_or]

/-- What begins a numeral is no quote. -/
theorem IsNumeral.not_isQuote (h : IsNumeral c rest) : ¬ IsQuote c := by
  rintro (rfl | rfl) <;> exact absurd h.start (by decide)

/-- What begins a symbol begins no name. -/
theorem not_isStart_of_symbol? {dialect : Dialect} {next : Option Char} {symbol : Symbol}
    (h : symbol? dialect c next = some symbol) (extended : Bool) : NameCharacter.isStart extended c = false := by
  simp only [symbol?] at h
  split at h <;> first | (cases extended <;> decide) | cases h

/-- What begins a symbol is no quote. -/
theorem not_isQuote_of_symbol? {dialect : Dialect} {next : Option Char} {symbol : Symbol}
    (h : symbol? dialect c next = some symbol) : ¬ IsQuote c := by
  rintro (rfl | rfl) <;> cases h

/-- What begins a name is no quote. -/
theorem not_isQuote_of_isStart {extended : Bool} (h : NameCharacter.isStart extended c = true) : ¬ IsQuote c := by
  rintro (rfl | rfl) <;> cases extended <;> revert h <;> decide

/-- What begins a name begins nothing longer than a symbol. -/
theorem not_isLonger_of_isStart {extended : Bool} (h : NameCharacter.isStart extended c = true) :
    ¬ IsLonger c rest := by
  have hnot (d : Char) (hd : NameCharacter.isStart extended d = false) : c ≠ d := by
    rintro rfl
    exact Bool.false_ne_true (hd.symm.trans h)
  rintro (hnumeral | hdots | hbracket)
  · rcases hnumeral.start with hdigit | hdot
    · exact Bool.false_ne_true ((NameCharacter.not_isStart_of_isDigit hdigit extended).symm.trans h)
    · exact hnot '.' (by cases extended <;> decide) hdot
  · exact hnot '.' (by cases extended <;> decide) hdots.1
  · exact hnot '[' (by cases extended <;> decide) hbracket.1

/-- What begins a name begins no symbol. -/
theorem symbol?_of_isStart {extended : Bool} (h : NameCharacter.isStart extended c = true) (dialect : Dialect)
    (next : Option Char) : symbol? dialect c next = none := by
  refine Option.eq_none_iff_forall_ne_some.mpr fun symbol hsymbol => ?_
  exact Bool.false_ne_true ((not_isStart_of_symbol? hsymbol extended).symm.trans h)

/-! ## How it is read -/

/-- Behind a quote a string is read. -/
theorem read_string (h : IsQuote c) : read options line (c :: rest) =
    (QuotedString.read options.dialect c (c :: rest)).map fun found => (.string (String.ofList found.1), found.2) := by
  rcases h with rfl | rfl <;> rfl

/-- Where a numeral begins it is read. -/
theorem read_numeral (h : IsNumeral c rest) : read options line (c :: rest) =
    (Numeral.read options.dialect options.extendedIdentifiers (c :: rest)).map fun found =>
      (.number found.1, found.2) := by
  have hquote : ¬ (c == '\'' || c == '"') = true := by simpa [IsQuote] using h.not_isQuote
  simp only [read]
  rw [if_neg hquote, if_pos (by exact h)]

/-- Three points are read as the token for variable arguments. -/
theorem read_dots (h : IsDots c rest) : read options line (c :: rest) = .ok (.vararg, 3) := by
  obtain ⟨rfl, hdots⟩ := h
  match rest with
  | [] => cases hdots
  | [_] => cases hdots
  | d :: e :: rest =>
    cases hdots
    rfl

/-- Where a long bracket begins a long string is read. -/
theorem read_bracket (h : IsBracket c rest) : read options line (c :: rest) = longString line (c :: rest) := by
  obtain ⟨rfl, hnext⟩ := h
  cases rest with
  | nil => rcases hnext with hnext | hnext <;> cases hnext
  | cons d rest => rcases hnext with hnext | hnext <;> cases hnext <;> rfl

/-- Where nothing longer begins there is a symbol, a name or nothing at all. -/
theorem read_short (hquote : ¬ IsQuote c) (hlonger : ¬ IsLonger c rest) : read options line (c :: rest) =
    match symbol? options.dialect c rest.head? with
    | some symbol => .ok (.punctuator symbol, symbol.spelling.length)
    | none =>
      if NameCharacter.isStart options.extendedIdentifiers c then
        .ok (word options.dialect (String.ofList
          ((c :: rest).takeWhile (NameCharacter.isPart options.extendedIdentifiers))),
          ((c :: rest).takeWhile (NameCharacter.isPart options.extendedIdentifiers)).length)
      else .error (.after (c :: rest) 0 .unexpectedCharacter [[c]]) := by
  obtain ⟨hnumeral, hothers⟩ := not_or.mp hlonger
  obtain ⟨hdots, hbracket⟩ := not_or.mp hothers
  simp only [read]
  rewrite [if_neg (by simpa [IsQuote] using hquote), if_neg (by exact hnumeral),
    if_neg (by simpa [IsDots] using hdots), if_neg (by simpa [IsBracket] using hbracket)]
  rfl

/-- A symbol is read where nothing longer begins. -/
theorem read_symbol {symbol : Symbol} (hlonger : ¬ IsLonger c rest)
    (h : symbol? options.dialect c rest.head? = some symbol) :
    read options line (c :: rest) = .ok (.punctuator symbol, symbol.spelling.length) := by
  rw [read_short (not_isQuote_of_symbol? h) hlonger, h]

/-- A name is read where one begins. -/
theorem read_name (h : NameCharacter.isStart options.extendedIdentifiers c = true) :
    read options line (c :: rest) =
      .ok (word options.dialect (String.ofList
        ((c :: rest).takeWhile (NameCharacter.isPart options.extendedIdentifiers))),
        ((c :: rest).takeWhile (NameCharacter.isPart options.extendedIdentifiers)).length) := by
  rw [read_short (not_isQuote_of_isStart h) (not_isLonger_of_isStart h), symbol?_of_isStart h, h]
  rfl

/-- No token begins with a character that begins no symbol, no name, no numeral and no string. -/
theorem read_unexpected (hquote : ¬ IsQuote c) (hdigit : c.isDigit = false)
    (hsymbol : symbol? options.dialect c rest.head? = none)
    (hname : NameCharacter.isStart options.extendedIdentifiers c = false) :
    read options line (c :: rest) = .error (.after (c :: rest) 0 .unexpectedCharacter [[c]]) := by
  have hdot : c ≠ '.' := by
    rintro rfl
    cases hsymbol
  have hlonger : ¬ IsLonger c rest := by
    rintro (hnumeral | hdots | ⟨rfl, -⟩)
    · rcases hnumeral.start with h | h
      · exact Bool.false_ne_true (hdigit.symm.trans h)
      · exact hdot h
    · exact hdot hdots.1
    · cases hsymbol
  rw [read_short hquote hlonger, hsymbol, hname]
  rfl

/-- What stands at the front of a text, told from its first characters. -/
inductive Begins (options : ParseOptions) (c : Char) (rest : Text) : Prop where
  | string : IsQuote c → Begins options c rest
  | numeral : IsNumeral c rest → Begins options c rest
  | dots : IsDots c rest → Begins options c rest
  | bracket : IsBracket c rest → Begins options c rest
  | symbol (symbol : Symbol) : ¬ IsLonger c rest → symbol? options.dialect c rest.head? = some symbol →
      Begins options c rest
  | name : NameCharacter.isStart options.extendedIdentifiers c = true → Begins options c rest
  | nothing : ¬ IsQuote c → c.isDigit = false → symbol? options.dialect c rest.head? = none →
      NameCharacter.isStart options.extendedIdentifiers c = false → Begins options c rest

/-- Every character begins a lexeme of one kind, or none. -/
theorem begins (options : ParseOptions) (c : Char) (rest : Text) : Begins options c rest := by
  by_cases hquote : IsQuote c
  · exact .string hquote
  by_cases hlonger : IsLonger c rest
  · rcases hlonger with hnumeral | hdots | hbracket
    · exact .numeral hnumeral
    · exact .dots hdots
    · exact .bracket hbracket
  cases hsymbol : symbol? options.dialect c rest.head? with
  | some symbol => exact .symbol symbol hlonger hsymbol
  | none =>
    cases hname : NameCharacter.isStart options.extendedIdentifiers c with
    | true => exact .name hname
    | false =>
      exact .nothing hquote (Bool.eq_false_iff.mpr fun hdigit => hlonger (.inl (.of_isDigit hdigit))) hsymbol hname

/-! ## What is read -/

/-- A value that is wrapped is found where the value is. -/
theorem map_eq_ok {α : Type} (f : α → TokenValue) {result : Except Fault (α × Nat)} :
    (result.map fun found => (f found.1, found.2)) = .ok (value, length) ↔
      ∃ v, result = .ok (v, length) ∧ f v = value := by
  rcases result with fault | ⟨v, length'⟩ <;> simp [Except.map, and_comm, eq_comm]

/-- What is wrapped fails where the value does. -/
theorem map_eq_error {α : Type} (f : α → TokenValue) {result : Except Fault (α × Nat)} :
    (result.map fun found => (f found.1, found.2)) = .error fault ↔ result = .error fault := by
  cases result <;> simp [Except.map]

/-- A long string is read as the content of its bracket. -/
theorem longString_eq_ok : longString line text = .ok (value, length) ↔
    ∃ content, LongBracket.read text = .bracket content length ∧ .string (String.ofList content) = value := by
  rw [longString]
  cases LongBracket.read text <;> simp [and_comm, eq_comm]

/-- The lexemes that begin with a character. A symbol is only read where nothing longer begins. -/
inductive Found (options : ParseOptions) (c : Char) (rest : Text) : TokenValue → Nat → Prop where
  | string {content : Text} {length : Nat} : IsQuote c →
      QuotedString.read options.dialect c (c :: rest) = .ok (content, length) →
      Found options c rest (.string (String.ofList content)) length
  | numeral {number : Float} {length : Nat} : IsNumeral c rest →
      Numeral.read options.dialect options.extendedIdentifiers (c :: rest) = .ok (number, length) →
      Found options c rest (.number number) length
  | dots : IsDots c rest → Found options c rest .vararg 3
  | bracket {content : Text} {length : Nat} : IsBracket c rest →
      LongBracket.read (c :: rest) = .bracket content length →
      Found options c rest (.string (String.ofList content)) length
  | symbol {symbol : Symbol} : ¬ IsLonger c rest → symbol? options.dialect c rest.head? = some symbol →
      Found options c rest (.punctuator symbol) symbol.spelling.length
  | name {name : Text} {value : TokenValue} : NameCharacter.isStart options.extendedIdentifiers c = true →
      (c :: rest).takeWhile (NameCharacter.isPart options.extendedIdentifiers) = name →
      word options.dialect (String.ofList name) = value → Found options c rest value name.length

/-- A lexeme is read exactly when it is found. -/
theorem read_eq_ok_iff :
    read options line (c :: rest) = .ok (value, length) ↔ Found options c rest value length := by
  constructor
  · intro h
    cases begins options c rest with
    | string hquote =>
      rw [read_string hquote] at h
      obtain ⟨content, hread, rfl⟩ := (map_eq_ok fun content => .string (String.ofList content)).mp h
      exact .string hquote hread
    | numeral hnumeral =>
      rw [read_numeral hnumeral] at h
      obtain ⟨number, hread, rfl⟩ := (map_eq_ok TokenValue.number).mp h
      exact .numeral hnumeral hread
    | dots hdots =>
      rw [read_dots hdots] at h
      cases h
      exact .dots hdots
    | bracket hbracket =>
      rw [read_bracket hbracket] at h
      obtain ⟨content, hread, rfl⟩ := longString_eq_ok.mp h
      exact .bracket hbracket hread
    | symbol symbol hlonger hsymbol =>
      rw [read_symbol hlonger hsymbol] at h
      cases h
      exact .symbol hlonger hsymbol
    | name hstart =>
      rw [read_name hstart] at h
      cases h
      exact .name hstart rfl rfl
    | nothing hquote hdigit hsymbol hname =>
      rw [read_unexpected hquote hdigit hsymbol hname] at h
      cases h
  · intro h
    cases h with
    | string hquote hread => rw [read_string hquote, hread]; rfl
    | numeral hnumeral hread => rw [read_numeral hnumeral, hread]; rfl
    | dots hdots => exact read_dots hdots
    | bracket hbracket hread => rw [read_bracket hbracket, longString_eq_ok.mpr ⟨_, hread, rfl⟩]
    | symbol hlonger hsymbol => exact read_symbol hlonger hsymbol
    | name hstart hname hword =>
      rw [read_name hstart, hname, hword]

/-- What may be amiss with what begins with a character. -/
inductive Blamed (options : ParseOptions) (line : Nat) (c : Char) (rest : Text) : Fault → Prop where
  | string {fault : Fault} : IsQuote c → QuotedString.read options.dialect c (c :: rest) = .error fault →
      Blamed options line c rest fault
  | numeral {fault : Fault} : IsNumeral c rest →
      Numeral.read options.dialect options.extendedIdentifiers (c :: rest) = .error fault →
      Blamed options line c rest fault
  | bracket {fault : Fault} : IsBracket c rest → longString line (c :: rest) = .error fault →
      Blamed options line c rest fault
  | unexpected : ¬ IsQuote c → c.isDigit = false → symbol? options.dialect c rest.head? = none →
      NameCharacter.isStart options.extendedIdentifiers c = false →
      Blamed options line c rest (.after (c :: rest) 0 .unexpectedCharacter [[c]])

/-- A lexeme fails exactly when it is blamed. -/
theorem read_eq_error_iff :
    read options line (c :: rest) = .error fault ↔ Blamed options line c rest fault := by
  constructor
  · intro h
    cases begins options c rest with
    | string hquote =>
      rw [read_string hquote] at h
      exact .string hquote ((map_eq_error fun content => .string (String.ofList content)).mp h)
    | numeral hnumeral =>
      rw [read_numeral hnumeral] at h
      exact .numeral hnumeral ((map_eq_error TokenValue.number).mp h)
    | dots hdots =>
      rw [read_dots hdots] at h
      cases h
    | bracket hbracket =>
      rw [read_bracket hbracket] at h
      exact .bracket hbracket h
    | symbol symbol hlonger hsymbol =>
      rw [read_symbol hlonger hsymbol] at h
      cases h
    | name hstart =>
      rw [read_name hstart] at h
      cases h
    | nothing hquote hdigit hsymbol hname =>
      rw [read_unexpected hquote hdigit hsymbol hname] at h
      cases h
      exact .unexpected hquote hdigit hsymbol hname
  · intro h
    cases h with
    | string hquote hread => rw [read_string hquote, hread]; rfl
    | numeral hnumeral hread => rw [read_numeral hnumeral, hread]; rfl
    | bracket hbracket hread => rw [read_bracket hbracket, hread]
    | unexpected hquote hdigit hsymbol hname => exact read_unexpected hquote hdigit hsymbol hname

/-- What is read at a character is a token of at least one character, and not the end of the
input. -/
theorem Found.pos (h : Found options c rest value length) : value ≠ .endOfInput ∧ 1 ≤ length := by
  cases h with
  | string _ hread => exact ⟨TokenValue.noConfusion, Nat.le_of_succ_le (QuotedString.length_of_read hread)⟩
  | numeral hnumeral hread => exact ⟨TokenValue.noConfusion, Numeral.length_of_read hnumeral.start hread⟩
  | dots => exact ⟨TokenValue.noConfusion, by decide⟩
  | bracket _ hread => exact ⟨TokenValue.noConfusion, Nat.le_of_succ_le (LongBracket.length_of_read hread)⟩
  | symbol => exact ⟨TokenValue.noConfusion, length_spelling_pos _⟩
  | name hstart hname hword =>
    subst hname hword
    rw [List.takeWhile_cons_of_pos (NameCharacter.isPart_of_isStart hstart)]
    exact ⟨word_ne_endOfInput _ _, Nat.succ_pos _⟩

/-- A lexeme is not empty and not the end of the input. -/
theorem read_cons (h : read options line (c :: rest) = .ok (value, length)) :
    value ≠ .endOfInput ∧ 1 ≤ length :=
  (read_eq_ok_iff.mp h).pos

/-! ## Lexemes in a longer text -/

/-- What begins a numeral does so whatever follows. -/
theorem IsNumeral.append (h : IsNumeral c rest) (more : Text) : IsNumeral c (rest ++ more) := by
  cases rest with
  | nil =>
    simp only [IsNumeral, List.head?_nil, Option.any_none, Bool.and_false, Bool.or_false] at h
    rw [IsNumeral, h, Bool.true_or]
  | cons d rest => exact h

/-- Three points are three points whatever follows. -/
theorem IsDots.append (h : IsDots c rest) (more : Text) : IsDots c (rest ++ more) := by
  obtain ⟨hc, hdots⟩ := h
  match rest with
  | [] => cases hdots
  | [_] => cases hdots
  | d :: e :: rest => exact ⟨hc, hdots⟩

/-- What begins a long bracket does so whatever follows. -/
theorem IsBracket.append (h : IsBracket c rest) (more : Text) : IsBracket c (rest ++ more) := by
  obtain ⟨hc, hnext⟩ := h
  cases rest with
  | nil => rcases hnext with hnext | hnext <;> cases hnext
  | cons d rest => exact ⟨hc, hnext⟩

/-- Only two dots may begin more in a longer text than in one that goes on behind its first character. -/
theorem IsLonger.of_append (hrest : rest ≠ []) (h : IsLonger c (rest ++ more)) :
    IsLonger c rest ∨ c = '.' ∧ rest = ['.'] := by
  have hnext : (rest ++ more).head? = rest.head? := Text.head?_append_of_ne_nil hrest
  rcases h with hnumeral | ⟨rfl, hdots⟩ | hbracket
  · rw [IsNumeral, hnext] at hnumeral
    exact .inl (.inl hnumeral)
  · match rest with
    | [] => exact absurd rfl hrest
    | [d] =>
      obtain rfl : d = '.' := (List.cons.inj hdots).1
      exact .inr ⟨rfl, rfl⟩
    | d :: e :: rest => exact .inl (.inr (.inl ⟨rfl, hdots⟩))
  · rw [IsBracket, hnext] at hbracket
    exact .inl (.inr (.inr hbracket))

/-- A lexeme that ends before the text does is found as well when more follows. -/
theorem Found.append (h : Found options c rest value length) (hl : length < (c :: rest).length) :
    Found options c (rest ++ more) value length := by
  have hrest : rest ≠ [] := by
    rintro rfl
    exact Nat.not_le_of_lt hl h.pos.2
  have hnext : (rest ++ more).head? = rest.head? := Text.head?_append_of_ne_nil hrest
  cases h with
  | string hquote hread => exact .string hquote (QuotedString.read_append more hread)
  | numeral hnumeral hread =>
    exact .numeral (hnumeral.append more) (Numeral.read_append more hnumeral.start hread hl)
  | dots hdots => exact .dots (hdots.append more)
  | bracket hbracket hread => exact .bracket (hbracket.append more) (LongBracket.read_append hread)
  | symbol hlonger hsymbol =>
    refine .symbol (fun h => ?_) (hnext ▸ hsymbol)
    rcases h.of_append hrest with h | ⟨rfl, rfl⟩
    · exact hlonger h
    · -- two dots at the end are read as two dots, which are the whole text
      cases hsymbol
      exact absurd hl (by decide)
  | name hstart hname hword =>
    subst hname
    exact .name hstart (Text.takeWhile_append_of_lt more hl) hword

/-- A token that ends before the end of the text is the same token in every longer text. -/
theorem read_append (h : read options line text = .ok (value, length)) (hl : length < text.length) :
    read options line (text ++ more) = .ok (value, length) := by
  cases text with
  | nil => exact absurd hl (Nat.not_lt_zero _)
  | cons c rest => exact read_eq_ok_iff.mpr ((read_eq_ok_iff.mp h).append hl)

/-! ## Texts without a token -/

/-- A text in which a token was begun that the dialect reads only as a whole. -/
def Cut (options : ParseOptions) (text : Text) : Prop :=
  (options.dialect.has .bitwiseOperators = false ∧ text = ['~']) ∨
    (text.head?.any Char.isDigit = true ∧ Numeral.Cut options.dialect text)

/-- Only of a tilde does it depend on the next character whether it begins a symbol. -/
theorem symbol?_eq_none {dialect : Dialect} {c : Char} {next : Option Char}
    (h : symbol? dialect c next = none) (hc : c ≠ '~') (later : Option Char) :
    symbol? dialect c later = none := by
  simp only [symbol?] at h ⊢
  split at h <;> first | rfl | exact h | exact absurd rfl hc | cases h

/-- A symbol has one character, unless one of those stands behind it that end a longer one. -/
theorem length_spelling_of_next {dialect : Dialect} {c : Char} {next : Option Char} {symbol : Symbol}
    (hnext : ∀ d ∈ ['.', '=', '>', '<', ':', '/'], next ≠ some d) (h : symbol? dialect c next = some symbol) :
    symbol.spelling.length = 1 := by
  have hother (d : Char) (hd : d ∈ ['.', '=', '>', '<', ':', '/']) : (next == some d) = false :=
    beq_eq_false_iff_ne.mpr (hnext d hd)
  simp only [symbol?, hother '.' (by decide), hother '=' (by decide), hother '>' (by decide),
    hother '<' (by decide), hother ':' (by decide), hother '/' (by decide), Bool.false_and, Bool.false_eq_true,
    if_false] at h
  split at h <;> first | (cases h; rfl) | (split at h <;> cases h; rfl) | cases h

variable (more) in
/-- A long string that fails within the text fails when more follows. -/
theorem longString_error_append (h : longString line text = .error fault)
    (hend : fault.endOfInput = false) : ∃ fault', longString line (text ++ more) = .error fault' := by
  simp only [longString] at h ⊢
  split at h
  · cases h
  · cases h
    simp [Fault.after] at hend
  · next habsent =>
    cases h
    rw [Fault.after_endOfInput, List.isEmpty_eq_false_iff, ← List.length_pos_iff,
      List.length_drop] at hend
    rw [LongBracket.read_absent_append habsent (by omega)]
    exact ⟨_, rfl⟩

/-- A numeral that was not cut is no malformed one that the dialect reads only as a whole. -/
theorem not_numeralCut (hnumeral : IsNumeral c rest) (hcut : ¬ Cut options (c :: rest)) :
    ¬ Numeral.Cut options.dialect (c :: rest) := by
  intro hc
  rcases hnumeral.start with hdigit | rfl
  · exact hcut (.inr ⟨hdigit, hc⟩)
  · obtain ⟨-, figure, hf, hno, -⟩ := hc
    rw [Numeral.fractional_of_dot hf] at hno
    cases hno

/-- With what begins no symbol none begins in a longer text, unless it is a tilde that was cut. -/
theorem symbol?_append (h : symbol? options.dialect c rest.head? = none) (hcut : ¬ Cut options (c :: rest)) :
    symbol? options.dialect c (rest ++ more).head? = none := by
  by_cases htilde : c = '~'
  · subst htilde
    have hbitwise : options.dialect.has .bitwiseOperators = false := by
      by_contra hb
      simp only [symbol?, Bool.not_eq_false] at h hb
      rw [hb, if_pos rfl] at h
      split at h <;> cases h
    rwa [Text.head?_append_of_ne_nil fun hnil => hcut (.inl ⟨hbitwise, by rw [hnil]⟩)]
  · exact symbol?_eq_none h htilde _

variable (more) in
/-- What is no token although the text goes on is none in any longer text, unless it was cut. -/
theorem read_error_append (h : read options line text = .error fault)
    (hend : fault.endOfInput = false) (hcut : ¬ Cut options text) :
    ∃ fault', read options line (text ++ more) = .error fault' := by
  cases text with
  | nil => cases h
  | cons c rest =>
    simp only [List.cons_append, read_eq_error_iff]
    cases read_eq_error_iff.mp h with
    | string hquote hread =>
      obtain ⟨later, hlater⟩ := QuotedString.read_error_append more hread hend
      exact ⟨later, .string hquote hlater⟩
    | numeral hnumeral hread =>
      obtain ⟨later, hlater⟩ := Numeral.read_error_append more hnumeral.start hread hend
        (not_numeralCut hnumeral hcut)
      exact ⟨later, .numeral (hnumeral.append more) hlater⟩
    | bracket hbracket hread =>
      obtain ⟨later, hlater⟩ := longString_error_append more hread hend
      exact ⟨later, .bracket (hbracket.append more) hlater⟩
    | unexpected hquote hdigit hsymbol hname =>
      exact ⟨_, .unexpected hquote hdigit (symbol?_append hsymbol hcut) hname⟩

variable (line) in
/-- What was cut is a token with the rest of it. -/
theorem read_completed (h : Cut options text) :
    ∃ more value, read options line (text ++ more) = .ok (value, (text ++ more).length) := by
  rcases h with ⟨hbitwise, rfl⟩ | ⟨hdigit, hcut⟩
  · exact ⟨['='], .punctuator .notEqual, rfl⟩
  · cases text with
    | nil => cases hdigit
    | cons c rest =>
      obtain ⟨more, value, hread⟩ :=
        Numeral.read_completed options.extendedIdentifiers (.inl hdigit) hcut
      exact ⟨more, .number value, read_eq_ok_iff.mpr (.numeral (.of_isDigit hdigit) hread)⟩

end Lexeme

end LuaSyntax
