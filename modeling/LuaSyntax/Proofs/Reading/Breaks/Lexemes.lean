import LuaSyntax.Proofs.Reading.Numerals
import LuaSyntax.Proofs.Text.Scan
import LuaSyntax.Proofs.Reading.Breaks.Strings
import LuaSyntax.Proofs.Reading.Lexemes

/-!
# Numerals and lexemes divide no line break

No character of a numeral ends a line: not its digits, nor its dot, the letter and the sign of its
exponent and the letters of its suffix. The same holds of a malformed one up to where it goes wrong. So
where a lexeme ends, or reading one gives up, no line break is divided. A malformed numeral is blamed as a
whole but told with the line on which reading came to a halt; that is the same line because nothing in a
numeral ends one.
-/

namespace LuaSyntax

namespace Numeral

variable {text : Text} {dialect : Dialect}

/-- No numeral runs on into the end of a line. -/
theorem isLineEnd_of_runsOn (extended : Bool) (c : Char) (h : runsOn extended c = true) :
    Text.isLineEnd c = false :=
  Text.not_isLineEnd (by cases extended <;> rfl) (by cases extended <;> rfl) c h

/-- A fraction stays on its line. -/
theorem oneLine_fraction {isDigit : Char → Bool} (hdigit : ∀ c, isDigit c = true →
    Text.isLineEnd c = false) (text : Text) :
    Text.OneLine (text.take (fractionLength (fraction? isDigit text))) := by
  unfold fraction?
  split
  · next rest => exact Text.oneLine_take_of_cons rfl (Text.oneLine_run hdigit rest)
  · exact Text.oneLine_nil

/-- An exponent stays on its line. -/
theorem oneLine_exponent {lower upper : Char} (hlower : Text.isLineEnd lower = false)
    (hupper : Text.isLineEnd upper = false) {exponent : Exponent}
    (h : exponent? lower upper text = some exponent) :
    Text.OneLine (text.take (exponent.lead + exponent.digits.length)) := by
  have hrun (rest : Text) := Text.oneLine_run Text.isLineEnd_of_isDigit rest
  cases text with
  | nil => cases h
  | cons c rest =>
    simp only [exponent?] at h
    split at h
    · next hletter =>
      have hc : Text.isLineEnd c = false := by
        rw [Bool.or_eq_true, beq_iff_eq, beq_iff_eq] at hletter
        rcases hletter with rfl | rfl
        · exact hlower
        · exact hupper
      have hone : Text.OneLine ((c :: rest).take 1) := Text.oneLine_take_of_cons hc Text.oneLine_nil
      split at h
      · next more =>
        cases h
        exact Text.OneLine.take_add (Text.oneLine_take_of_cons hc
          (Text.oneLine_take_of_cons rfl Text.oneLine_nil)) (hrun more)
      · next more =>
        cases h
        exact Text.OneLine.take_add (Text.oneLine_take_of_cons hc
          (Text.oneLine_take_of_cons rfl Text.oneLine_nil)) (hrun more)
      · cases h
        exact hone.take_add (hrun rest)
    · cases h

/-- No part of a figure ends a line. -/
theorem oneLine_gather {digit : Char → Bool} {lower upper : Char} {floats : Bool} {marks : Nat}
    (hdigit : ∀ c, digit c = true → Text.isLineEnd c = false) (hlower : Text.isLineEnd lower = false)
    (hupper : Text.isLineEnd upper = false) (hmarks : Text.OneLine (text.take marks)) :
    Text.OneLine (text.take (gather digit lower upper floats marks text).length) := by
  have hwhole := hmarks.take_add (Text.oneLine_run hdigit (text.drop marks))
  simp only [Gathered.length, Gathered.mantissa, gather]
  rw [Nat.add_comm marks] at hwhole
  generalize (text.drop marks).takeWhile digit = whole at *
  cases floats with
  | false => exact hwhole
  | true =>
    simp only [if_true]
    have hmantissa := hwhole.take_add (oneLine_fraction hdigit (text.drop (whole.length + marks)))
    generalize fraction? digit (text.drop (whole.length + marks)) = fraction at *
    cases hexponent : exponent? lower upper (text.drop (whole.length + marks + fractionLength fraction)) with
    | none => exact hmantissa
    | some exponent => exact hmantissa.take_add (oneLine_exponent hlower hupper hexponent)

/-- A decimal numeral stays on its line, also a malformed one. -/
theorem oneLine_readDecimal (text : Text) : Text.OneLine (text.take (readDecimal text).reach) := by
  rw [readDecimal_eq, Gathered.reach_decimal]
  exact oneLine_gather Text.isLineEnd_of_isDigit rfl rfl Text.oneLine_nil

/-- Reading a hexadecimal figure comes behind its two marks to its end. -/
theorem oneLine_readHexadecimal (floats : Bool) (h : isHexadecimal text = true) :
    Text.OneLine (text.take (readHexadecimal floats text).reach) := by
  obtain ⟨c, rest, rfl, hc⟩ : ∃ c rest, text = '0' :: c :: rest ∧ Text.isLineEnd c = false := by
    unfold isHexadecimal at h
    split at h
    · next c rest =>
      rw [Bool.or_eq_true, beq_iff_eq, beq_iff_eq] at h
      exact ⟨c, rest, rfl, by rcases h with rfl | rfl <;> rfl⟩
    · cases h
  have hline : Text.OneLine (('0' :: c :: rest).take (gather Digit.isHex 'p' 'P' floats 2 ('0' :: c :: rest)).length) :=
    oneLine_gather Text.isLineEnd_of_isHex rfl rfl
      (Text.oneLine_take_of_cons rfl (Text.oneLine_take_of_cons hc Text.oneLine_nil))
  rw [readHexadecimal_eq, Gathered.reach_hexadecimal]
  split
  · exact hline.of_take_add
  · exact hline

/-- The figure of a numeral stays on its line. -/
theorem oneLine_readFigure (dialect : Dialect) (text : Text) :
    Text.OneLine (text.take (readFigure dialect text).reach) := by
  rw [readFigure]
  split
  · next hhexadecimal => exact oneLine_readHexadecimal _ hhexadecimal
  · exact oneLine_readDecimal text

/-- The imaginary suffix stays on its line. -/
theorem oneLine_imaginarySuffix (dialect : Dialect) (text : Text) :
    Text.OneLine (text.take (imaginarySuffix dialect text)) := by
  unfold imaginarySuffix
  split
  · next c rest =>
    split
    · next hletter =>
      rw [Bool.and_eq_true, Bool.or_eq_true, beq_iff_eq, beq_iff_eq] at hletter
      refine Text.oneLine_take_of_cons ?_ Text.oneLine_nil
      rcases hletter.2 with rfl | rfl <;> rfl
    · exact Text.oneLine_nil
  · exact Text.oneLine_nil

/-- The letter of a long integer ends no line. -/
theorem isLineEnd_of_isLong {letter : Option Char} (h : isLong letter = true) :
    ∀ c ∈ letter, Text.isLineEnd c = false := by
  rintro c ⟨rfl⟩
  exact @Text.not_isLineEnd (fun d => isLong (some d)) rfl rfl c h

/-- The suffix of an integer stays on its line. -/
theorem oneLine_integerSuffix {length : Nat} (h : integerSuffix dialect text = some length) :
    Text.OneLine (text.take length) := by
  simp only [integerSuffix] at h
  split at h
  · split at h
    · next hunsigned =>
      have hfirst : ∀ c ∈ text[0]?, Text.isLineEnd c = false := by
        intro c hc
        rw [hc, Bool.or_eq_true, beq_iff_eq, beq_iff_eq, Option.some.injEq, Option.some.injEq]
          at hunsigned
        rcases hunsigned with rfl | rfl <;> rfl
      split at h
      · next hboth =>
        obtain ⟨hsecond, hthird⟩ := Bool.and_eq_true_iff.mp hboth
        cases h
        refine Text.oneLine_take fun i hi => ?_
        obtain rfl | rfl | rfl : i = 0 ∨ i = 1 ∨ i = 2 := by omega
        · exact hfirst
        · exact isLineEnd_of_isLong hsecond
        · exact isLineEnd_of_isLong hthird
      · cases h
    · split at h
      · next hfirst =>
        split at h
        · next hsecond =>
          cases h
          refine Text.oneLine_take fun i hi => ?_
          obtain rfl | rfl : i = 0 ∨ i = 1 := by omega
          · exact isLineEnd_of_isLong hfirst
          · exact isLineEnd_of_isLong hsecond
        · cases h
      · cases h
        exact Text.oneLine_nil
  · cases h
    exact Text.oneLine_nil

/-- Reading a numeral comes to a point on the line on which it begins. -/
theorem oneLine_recognise (dialect : Dialect) (extended : Bool) (text : Text) :
    Text.OneLine (text.take (reach (recognise dialect extended text))) := by
  have hfigure := oneLine_readFigure dialect text
  cases hf : readFigure dialect text with
  | error read =>
    rw [hf] at hfigure
    rw [recognise_of_error hf]
    exact hfigure
  | ok figure =>
    rw [hf] at hfigure
    have himaginary := hfigure.take_add (oneLine_imaginarySuffix dialect (text.drop figure.length))
    simp only [recognise, hf, bind, Except.bind]
    split
    · exact himaginary
    · next integer hinteger =>
      have hall := himaginary.take_add (oneLine_integerSuffix hinteger)
      split
      · exact hall
      · split <;> exact hall

end Numeral

/-! ## Lexemes -/

namespace Lexeme

variable {α : Type} {options : ParseOptions} {line : Nat} {text : Text} {fault : Fault}

/-- No symbol begins with the end of a line. -/
theorem isLineEnd_of_symbol? {dialect : Dialect} {c : Char} {next : Option Char} {symbol : Symbol}
    (h : symbol? dialect c next = some symbol) : Text.isLineEnd c = false := by
  refine @Text.not_isLineEnd (fun d => (symbol? dialect d next).isSome) rfl rfl c ?_
  rw [h]
  rfl

/-- What is no character of a symbol does not make a symbol longer. -/
theorem length_spelling_of_lineEnd {dialect : Dialect} {c d : Char} {symbol : Symbol}
    (hd : Text.isLineEnd d = true) (h : symbol? dialect c (some d) = some symbol) :
    symbol.spelling.length = 1 := by
  refine length_spelling_of_next (fun x hmem hx => ?_) h
  obtain rfl := Option.some.inj hx
  simp only [List.mem_cons, List.not_mem_nil, or_false] at hmem
  rcases hmem with rfl | rfl | rfl | rfl | rfl | rfl <;> cases hd

/-- A symbol may be cut off from what follows it. -/
theorem partedAt_symbol {dialect : Dialect} {c : Char} {rest : Text} {symbol : Symbol}
    (h : symbol? dialect c rest.head? = some symbol) :
    Text.PartedAt (c :: rest) symbol.spelling.length := by
  have hc := isLineEnd_of_symbol? h
  have hpos := length_spelling_pos symbol
  have hle := length_spelling_le symbol
  have hone : Text.PartedAt (c :: rest) 1 := Text.partedAt_cons hc (Text.partedAt_zero rest)
  cases rest with
  | nil => exact Text.partedAt_of_length_le hpos
  | cons d rest =>
    cases hd : Text.isLineEnd d with
    | true => rwa [length_spelling_of_lineEnd hd h]
    | false =>
      obtain hlength | hlength : symbol.spelling.length = 1 ∨ symbol.spelling.length = 2 := by omega
      · rwa [hlength]
      · rw [hlength]
        exact Text.partedAt_cons hc (Text.partedAt_cons hd (Text.partedAt_zero rest))

/-- A long string may be cut off from what follows it. -/
theorem partedAt_longString (line : Nat) (rest : Text) :
    Text.PartedAt ('[' :: rest) (reach (longString line ('[' :: rest))) := by
  rw [longString]
  split
  · next hbracket => exact LongBracket.partedAt_read hbracket
  · exact Text.partedAt_of_length_le (Nat.le_refl _)
  · exact Text.partedAt_cons rfl (Text.oneLine_run
      (fun c hc => @Text.not_isLineEnd (· == '=') rfl rfl c hc) rest).partedAt

/-- To change what is found does not change how far it reaches. -/
theorem reach_map {β : Type} (f : α → β) (result : Except Fault (α × Nat)) :
    reach (result.map fun found => (f found.1, found.2)) = reach result := by
  cases result <;> rfl

/-- Reading a numeral, or something malformed in its stead, stays on its line. -/
theorem oneLine_numeral (dialect : Dialect) (extended : Bool) (text : Text) :
    Text.OneLine (text.take (reach (Numeral.read dialect extended text))) := by
  have hread := Numeral.oneLine_recognise dialect extended text
  rw [Numeral.read]
  cases hr : Numeral.recognise dialect extended text with
  | ok found =>
    rw [hr] at hread
    exact hread
  | error read =>
    rw [hr] at hread
    exact hread.take_add (Text.oneLine_run (Numeral.isLineEnd_of_runsOn extended) (text.drop read))

/-- Reading a lexeme comes to a point that divides no line break. -/
theorem partedAt_read (options : ParseOptions) (line : Nat) (text : Text) :
    text.PartedAt (reach (read options line text)) := by
  cases text with
  | nil => exact Text.partedAt_of_length_le (Nat.zero_le _)
  | cons c rest =>
    cases begins options c rest with
    | string hquote =>
      rw [read_string hquote, reach_map fun value => TokenValue.string (String.ofList value)]
      exact QuotedString.partedAt_read hquote.not_isLineEnd rest
    | numeral hnumeral =>
      rw [read_numeral hnumeral, reach_map TokenValue.number]
      exact (oneLine_numeral _ _ _).partedAt
    | dots hdots =>
      rw [read_dots hdots]
      obtain ⟨rfl, hdots⟩ := hdots
      refine Text.partedAt_cons rfl (Text.OneLine.partedAt ?_)
      rw [hdots]
      intro d hd
      obtain rfl : d = '.' := by simpa using hd
      rfl
    | bracket hbracket =>
      rw [read_bracket hbracket, hbracket.1]
      exact partedAt_longString line rest
    | symbol symbol hlonger hsymbol =>
      rw [read_symbol hlonger hsymbol]
      exact partedAt_symbol hsymbol
    | name hstart =>
      rw [read_name hstart]
      exact (Text.oneLine_run (Text.isLineEnd_of_isPart options.extendedIdentifiers) (c :: rest)).partedAt
    | nothing hquote hdigit hsymbol hname =>
      rw [read_unexpected hquote hdigit hsymbol hname]
      exact Text.partedAt_zero _

/-- A fault that is blamed on the beginning of a lexeme is one of a numeral. -/
theorem oneLine_of_blamesStart (h : read options line text = .error fault)
    (hblames : fault.blamesStart = true) : Text.OneLine (text.take fault.read) := by
  cases text with
  | nil => cases h
  | cons c rest =>
    cases read_eq_error_iff.mp h with
    | string hquote hread =>
      rw [QuotedString.blamesStart_of_read hread] at hblames
      cases hblames
    | numeral hnumeral hread =>
      have hline := oneLine_numeral options.dialect options.extendedIdentifiers (c :: rest)
      rwa [hread] at hline
    | bracket hbracket hread =>
      rw [longString] at hread
      split at hread <;> cases hread <;> cases hblames
    | unexpected => cases hblames

end Lexeme

end LuaSyntax
