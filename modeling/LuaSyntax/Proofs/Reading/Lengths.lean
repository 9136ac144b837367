import LuaSyntax.Proofs.Reading.Apart.Numerals
import LuaSyntax.Proofs.Reading.Lexemes

/-!
# Lexemes lie in their texts

What is read at the front of a text has no more characters than the text: each part of it is looked for in what is
left of the text behind the parts before.
-/

namespace LuaSyntax

variable {text : Text} {dialect : Dialect}

/-! ## Numerals -/

namespace Numeral

/-- A fraction lies within the text. -/
theorem fractionLength_le {isDigit : Char → Bool} (text : Text) :
    fractionLength (fraction? isDigit text) ≤ text.length := by
  unfold fraction?
  split
  · next rest =>
    have := (List.takeWhile_prefix (l := rest) isDigit).length_le
    simp only [fractionLength, Option.map_some, Option.getD_some, List.length_cons]
    omega
  · exact Nat.zero_le _

/-- An exponent lies within the text. -/
theorem length_le_of_exponent? {lower upper : Char} {exponent : Exponent}
    (h : exponent? lower upper text = some exponent) : exponent.lead + exponent.digits.length ≤ text.length := by
  have hdigits (text : Text) := (List.takeWhile_prefix (l := text) Char.isDigit).length_le
  cases text with
  | nil => cases h
  | cons c rest =>
    simp only [exponent?] at h
    split at h
    · split at h
      · next more =>
        cases h
        have := hdigits more
        simp only [List.length_cons]
        omega
      · next more =>
        cases h
        have := hdigits more
        simp only [List.length_cons]
        omega
      · cases h
        have := hdigits rest
        simp only [List.length_cons]
        omega
    · cases h

/-- The parts of a figure lie in the text. -/
theorem length_gather_le {digit : Char → Bool} {lower upper : Char} {floats : Bool} {marks : Nat}
    (hmarks : marks ≤ text.length) : (gather digit lower upper floats marks text).length ≤ text.length := by
  have hwhole := (List.takeWhile_prefix (l := text.drop marks) digit).length_le
  rw [List.length_drop] at hwhole
  simp only [Gathered.length, Gathered.mantissa, gather]
  generalize (text.drop marks).takeWhile digit = whole at *
  cases floats with
  | false =>
    simp only [Bool.false_eq_true, if_false, Option.elim_none, fractionLength, Option.map_none, Option.getD_none]
    omega
  | true =>
    simp only [if_true]
    have hfraction := @fractionLength_le digit (text.drop (whole.length + marks))
    rw [List.length_drop] at hfraction
    generalize fraction? digit (text.drop (whole.length + marks)) = fraction at *
    cases hexponent : exponent? lower upper (text.drop (whole.length + marks + fractionLength fraction)) with
    | none =>
      rw [Option.elim_none]
      omega
    | some exponent =>
      have hpower := length_le_of_exponent? hexponent
      rw [List.length_drop] at hpower
      rw [Option.elim_some]
      omega

/-- A decimal numeral lies within the text. -/
theorem length_le_of_readDecimal {figure : Figure} (h : readDecimal text = .ok figure) :
    figure.length ≤ text.length := by
  rw [readDecimal_eq] at h
  rw [← (Gathered.of_decimal h).1]
  exact length_gather_le (Nat.zero_le _)

/-- A hexadecimal numeral lies within the text. -/
theorem length_le_of_readHexadecimal {floats : Bool} {figure : Figure} (htwo : 2 ≤ text.length)
    (h : readHexadecimal floats text = .ok figure) : figure.length ≤ text.length := by
  rw [readHexadecimal_eq] at h
  rw [← (Gathered.of_hexadecimal h).1]
  exact length_gather_le htwo

/-- A hexadecimal numeral has two characters at least. -/
theorem two_le_of_isHexadecimal (h : isHexadecimal text = true) : 2 ≤ text.length := by
  unfold isHexadecimal at h
  split at h
  · simp
  · cases h

/-- The figure of a numeral lies within the text. -/
theorem length_le_of_readFigure {figure : Figure} (h : readFigure dialect text = .ok figure) :
    figure.length ≤ text.length := by
  rw [readFigure] at h
  split at h
  · next hhexadecimal => exact length_le_of_readHexadecimal (two_le_of_isHexadecimal hhexadecimal) h
  · exact length_le_of_readDecimal h

/-- The imaginary suffix lies within the text. -/
theorem imaginarySuffix_le (dialect : Dialect) (text : Text) : imaginarySuffix dialect text ≤ text.length := by
  unfold imaginarySuffix
  split
  · split <;> simp
  · exact Nat.zero_le _

/-- The suffix of an integer lies within the text. -/
theorem length_le_of_integerSuffix {length : Nat} (h : integerSuffix dialect text = some length) :
    length ≤ text.length := by
  have hlong {i : Nat} (hi : isLong text[i]? = true) : i < text.length := by
    by_contra hbeyond
    rw [List.getElem?_eq_none (Nat.le_of_not_lt hbeyond)] at hi
    cases hi
  rw [integerSuffix] at h
  split at h
  · dsimp only at h
    split at h
    · split at h
      · next hletters =>
        cases h
        exact hlong (Bool.and_eq_true_iff.mp hletters).2
      · cases h
    · split at h
      · split at h
        · next hletter =>
          cases h
          exact hlong hletter
        · cases h
      · cases h
        exact Nat.zero_le _
  · cases h
    exact Nat.zero_le _

/-- A numeral lies within the text. -/
theorem length_le_of_read {extended : Bool} {value : Float} {length : Nat}
    (h : read dialect extended text = .ok (value, length)) : length ≤ text.length := by
  obtain ⟨figure, imaginary, integer, hparts, -, rfl⟩ := recognise_eq_ok_iff.mp (read_eq_ok_iff.mp h)
  have hfigure := length_le_of_readFigure hparts.readFigure_eq
  have himaginary := imaginarySuffix_le dialect (text.drop figure.length)
  have hinteger := length_le_of_integerSuffix hparts.integerSuffix_eq
  rw [hparts.imaginarySuffix_eq, List.length_drop] at himaginary
  rw [List.length_drop] at hinteger
  omega

end Numeral

/-! ## Strings -/

/-- A quoted string lies within the text. -/
theorem QuotedString.length_le_of_read {quote : Char} {value : Text} {length : Nat}
    (h : read dialect quote text = .ok (value, length)) : length ≤ text.length := by
  obtain ⟨-, hquote, -, rfl⟩ := read_eq_ok_iff.mp h
  obtain ⟨behind, hbehind⟩ := List.head?_eq_some_iff.mp hquote
  have hlength := congrArg List.length hbehind
  rw [List.length_drop, List.length_drop, List.length_cons] at hlength
  omega

/-- A long bracket lies within the text. -/
theorem LongBracket.length_le_of_read {content : Text} {length : Nat} (h : read text = .bracket content length) :
    length ≤ text.length := by
  obtain ⟨level, body, place, rfl, hplace, -, rfl⟩ := read_eq_bracket_iff.mp h
  have hfound := length_of_find? hplace
  rw [length_closer, List.length_drop] at hfound
  rw [List.length_append, length_opener]
  omega

/-! ## Lexemes -/

namespace Lexeme

variable {options : ParseOptions} {line length : Nat} {value : TokenValue}

/-- A symbol of two characters is read only where two are. -/
theorem length_le_of_symbol? {c : Char} {rest : Text} {symbol : Symbol}
    (h : symbol? dialect c rest.head? = some symbol) : symbol.spelling.length ≤ (c :: rest).length := by
  cases rest with
  | cons d rest => exact (length_spelling_le symbol).trans (by simp)
  | nil => exact Nat.le_of_eq (length_spelling_of_next (by simp) h)

/-- A lexeme lies within the text. -/
theorem Found.length_le {c : Char} {rest : Text} (h : Found options c rest value length) :
    length ≤ (c :: rest).length := by
  cases h with
  | string _ hread => exact QuotedString.length_le_of_read hread
  | numeral _ hread => exact Numeral.length_le_of_read hread
  | dots hdots =>
    have htwo := congrArg List.length hdots.2
    rw [List.length_take] at htwo
    simp only [List.length_cons, List.length_nil] at htwo ⊢
    omega
  | bracket _ hread => exact LongBracket.length_le_of_read hread
  | symbol _ hsymbol => exact length_le_of_symbol? hsymbol
  | name _ hname _ =>
    rw [← hname]
    exact (List.takeWhile_prefix _).length_le

/-- A lexeme lies in its text. -/
theorem length_le_of_read (h : read options line text = .ok (value, length)) : length ≤ text.length := by
  cases text with
  | nil =>
    cases h
    exact Nat.le_refl 0
  | cons c rest => exact (read_eq_ok_iff.mp h).length_le

end Lexeme

end LuaSyntax
