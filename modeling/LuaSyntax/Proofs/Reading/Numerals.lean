import LuaSyntax.Proofs.Text.Growth
import LuaSyntax.Token.Numeral

/-!
# Numerals in a growing text

A figure is read in two steps: its parts are gathered from the text, and then they make a decimal or a
hexadecimal figure or are blamed. What a longer text changes is shown of the first step, once for both.

Reading a numeral comes to some point of the text, whether it succeeds there or fails. If that point
lies before the end, reading comes to it in every longer text with the same outcome. There is one
exception: the suffix of a 64-bit integer has two or three letters, and when the text ends between
them the numeral counts as malformed at the first of them, where the text had not ended yet.
-/

namespace LuaSyntax.Numeral

variable {dialect : Dialect} {text more : Text}

/-! ## Figures -/

/-- The point to which reading a figure comes. -/
def Result.reach : Result → Nat
  | .ok figure => figure.length
  | .error read => read

/-- A fraction that ends before the text does is the same when more follows. -/
theorem fraction?_append {isDigit : Char → Bool}
    (h : fractionLength (fraction? isDigit text) < text.length) :
    fraction? isDigit (text ++ more) = fraction? isDigit text := by
  match text with
  | [] => simp at h
  | c :: rest =>
    simp only [List.cons_append, fraction?]
    split
    · next after heq =>
      obtain ⟨rfl, rfl⟩ := List.cons.inj heq
      simp only [fraction?, fractionLength, Option.map_some, Option.getD_some,
        List.length_cons] at h ⊢
      rw [Text.takeWhile_append_of_lt _ (by omega)]
    · next hdot =>
      split
      · next after heq =>
        obtain ⟨rfl, rfl⟩ := List.cons.inj heq
        exact absurd rfl (hdot _)
      · rfl

/-- Where there is no exponent there is none when more follows. -/
theorem exponent?_none_append {lower upper : Char} (h : exponent? lower upper text = none)
    (hne : text ≠ []) : exponent? lower upper (text ++ more) = none := by
  match text with
  | [] => exact absurd rfl hne
  | c :: rest =>
    simp only [List.cons_append, exponent?] at h ⊢
    split at h
    · split at h <;> cases h
    · next hletter => rw [if_neg hletter]

/-- An exponent that ends before the text does is the same when more follows. -/
theorem exponent?_append {lower upper : Char} {exponent : Exponent}
    (h : exponent? lower upper text = some exponent)
    (hl : exponent.lead + exponent.digits.length < text.length) :
    exponent? lower upper (text ++ more) = some exponent := by
  match text with
  | [] => cases h
  | c :: rest =>
    simp only [List.cons_append, exponent?] at h ⊢
    split at h
    · next hletter =>
      rw [if_pos hletter]
      split at h
      · cases h
        simp only [List.length_cons] at hl
        simp only [List.cons_append]
        rw [Text.takeWhile_append_of_lt _ (by omega)]
      · cases h
        simp only [List.length_cons] at hl
        simp only [List.cons_append]
        rw [Text.takeWhile_append_of_lt _ (by omega)]
      · next hminus hplus =>
        cases h
        simp only [List.length_cons] at hl
        have hrun := Text.takeWhile_append_of_lt more
          (show (rest.takeWhile Char.isDigit).length < rest.length by omega)
        cases rest with
        | nil => simp at hl
        | cons d rest =>
          rw [List.cons_append] at hrun ⊢
          split
          · next heq =>
            obtain ⟨rfl, _⟩ := List.cons.inj heq
            exact absurd rfl (hminus _)
          · next heq =>
            obtain ⟨rfl, _⟩ := List.cons.inj heq
            exact absurd rfl (hplus _)
          · rw [hrun]
    · cases h

/-- The parts of a figure as they are read: the marks that it begins with, digits, perhaps a fraction and perhaps
an exponent. Decimal and hexadecimal figures have them in common. -/
structure Gathered where
  /-- How many marks there are. -/
  marks : Nat
  whole : Text
  fraction : Option Text
  exponent : Option Exponent

namespace Gathered

/-- The digits on both sides of the dot. -/
def digits (found : Gathered) : Text := found.whole ++ found.fraction.getD []

/-- How many characters stand before the exponent. -/
def mantissa (found : Gathered) : Nat :=
  found.whole.length + found.marks + fractionLength found.fraction

/-- How many characters all parts have. -/
def length (found : Gathered) : Nat :=
  found.mantissa + found.exponent.elim 0 fun exponent => exponent.lead + exponent.digits.length

/-- The decimal figure with some parts. -/
def decimal (found : Gathered) : Result :=
  let places : Int := (found.fraction.getD []).length
  match found.exponent with
  | none => .ok ⟨decimalValue found.digits (-places), found.fraction.isSome, found.mantissa⟩
  | some ⟨lead, negative, power⟩ =>
    if power.isEmpty then .error (found.mantissa + lead)
    else
      let power' : Int := Digit.decimal power
      let exponent := if negative then -power' else power'
      .ok ⟨decimalValue found.digits (exponent - places), true, found.mantissa + lead + power.length⟩

/-- The hexadecimal figure with some parts. -/
def hexadecimal (found : Gathered) : Result :=
  if found.digits.isEmpty then .error found.mantissa
  else
    let value := addFraction (addWhole (Float.ofNat 0) found.whole) (Float.ofNat 1 / Float.ofNat 16)
      (found.fraction.getD [])
    match found.exponent with
    | none => .ok ⟨value, found.fraction.isSome, found.mantissa⟩
    | some ⟨lead, negative, power⟩ =>
      if power.isEmpty then .error (found.mantissa + lead)
      else .ok ⟨scaleBy value negative (Digit.decimal power), true, found.mantissa + lead + power.length⟩

/-- A decimal numeral reaches as far as what was gathered. -/
theorem reach_decimal (found : Gathered) : found.decimal.reach = found.length := by
  obtain ⟨marks, whole, fraction, _ | ⟨lead, negative, power⟩⟩ := found
  · rfl
  · cases power with
    | nil => rfl
    | cons c power => exact Nat.add_assoc _ _ _

/-- A hexadecimal numeral reaches as far as what was gathered, and a malformed one to its mantissa. -/
theorem reach_hexadecimal (found : Gathered) :
    found.hexadecimal.reach = if found.digits.isEmpty then found.mantissa else found.length := by
  rw [hexadecimal]
  split
  · rfl
  · obtain ⟨marks, whole, fraction, _ | ⟨lead, negative, power⟩⟩ := found
    · rfl
    · cases power with
      | nil => rfl
      | cons c power => exact Nat.add_assoc _ _ _

/-- A decimal numeral with a point is fractional. -/
theorem fractional_of_decimal {found : Gathered} {figure : Figure} (hfraction : found.fraction.isSome = true)
    (h : found.decimal = .ok figure) : figure.fractional = true := by
  rw [decimal] at h
  split at h
  · cases h
    exact hfraction
  · split at h
    · cases h
    · cases h
      rfl

/-- The marks lie within the mantissa. -/
theorem marks_le_mantissa (found : Gathered) : found.marks ≤ found.mantissa := by
  rw [mantissa]
  omega

/-- The mantissa lies within the numeral. -/
theorem mantissa_le_length (found : Gathered) : found.mantissa ≤ found.length := Nat.le_add_right _ _

/-- A hexadecimal numeral reaches to its mantissa at least. -/
theorem mantissa_le_reach (found : Gathered) : found.mantissa ≤ found.hexadecimal.reach := by
  rw [reach_hexadecimal]
  split
  · exact Nat.le_refl _
  · exact found.mantissa_le_length

end Gathered

/-- Reads the parts of a figure. Without `floats` there is neither a fraction nor an exponent. -/
def gather (digit : Char → Bool) (lower upper : Char) (floats : Bool) (marks : Nat) (text : Text) : Gathered :=
  let whole := (text.drop marks).takeWhile digit
  let fraction := if floats then fraction? digit (text.drop (whole.length + marks)) else none
  let length := whole.length + marks + fractionLength fraction
  ⟨marks, whole, fraction, if floats then exponent? lower upper (text.drop length) else none⟩

/-- A decimal numeral is what is gathered with decimal digits. -/
theorem readDecimal_eq (text : Text) : readDecimal text = (gather Char.isDigit 'e' 'E' true 0 text).decimal := rfl

/-- A hexadecimal numeral is what is gathered behind `0x` with hexadecimal digits. -/
theorem readHexadecimal_eq (floats : Bool) (text : Text) :
    readHexadecimal floats text = (gather Digit.isHex 'p' 'P' floats 2 text).hexadecimal := rfl

section

variable {digit : Char → Bool} {lower upper : Char} {floats : Bool} {marks : Nat}

/-- A mantissa that ends before the text does is the same when more follows. -/
theorem gather_append_mantissa (h : (gather digit lower upper floats marks text).mantissa < text.length) :
    (gather digit lower upper floats marks (text ++ more)).whole =
        (gather digit lower upper floats marks text).whole ∧
      (gather digit lower upper floats marks (text ++ more)).fraction =
        (gather digit lower upper floats marks text).fraction := by
  simp only [Gathered.mantissa, gather] at h ⊢
  have hsame : ((text ++ more).drop marks).takeWhile digit = (text.drop marks).takeWhile digit := by
    rw [List.drop_append_of_le_length (by omega), Text.takeWhile_append_of_lt _ (by rw [List.length_drop]; omega)]
  refine ⟨hsame, ?_⟩
  rw [hsame]
  cases floats with
  | false => rfl
  | true =>
    simp only [if_true] at h ⊢
    rw [List.drop_append_of_le_length (by omega), fraction?_append (by rw [List.length_drop]; omega)]

/-- Parts that end before the end of the text are the same in a longer text. -/
theorem gather_append (h : (gather digit lower upper floats marks text).length < text.length) :
    gather digit lower upper floats marks (text ++ more) = gather digit lower upper floats marks text := by
  have hlt := Nat.lt_of_le_of_lt (Gathered.mantissa_le_length _) h
  obtain ⟨hwhole, hfraction⟩ := @gather_append_mantissa _ more _ _ _ _ _ hlt
  simp only [Gathered.length, Gathered.mantissa, gather] at h hlt hwhole hfraction ⊢
  rw [hwhole] at hfraction ⊢
  rw [hfraction, List.drop_append_of_le_length (by omega)]
  cases floats with
  | false => rfl
  | true =>
    simp only [if_true] at h hlt ⊢
    rw [Gathered.mk.injEq, and_iff_right rfl, and_iff_right rfl, and_iff_right rfl]
    cases hexponent : exponent? lower upper (text.drop (((text.drop marks).takeWhile digit).length + marks +
      fractionLength (fraction? digit (text.drop (((text.drop marks).takeWhile digit).length + marks))))) with
    | none => exact exponent?_none_append hexponent (by rw [← List.length_pos_iff, List.length_drop]; omega)
    | some exponent =>
      rw [hexponent, Option.elim_some] at h
      exact exponent?_append hexponent (by rw [List.length_drop]; omega)

end

/-- A decimal numeral that ends before the text does is read alike when more follows. -/
theorem readDecimal_append (h : (readDecimal text).reach < text.length) :
    readDecimal (text ++ more) = readDecimal text := by
  rw [readDecimal_eq, Gathered.reach_decimal] at h
  rw [readDecimal_eq, readDecimal_eq, gather_append h]

/-- A hexadecimal numeral that ends before the text does is read alike when more follows. -/
theorem readHexadecimal_append {floats : Bool}
    (h : (readHexadecimal floats text).reach < text.length) :
    readHexadecimal floats (text ++ more) = readHexadecimal floats text := by
  rw [readHexadecimal_eq, Gathered.reach_hexadecimal] at h
  rw [readHexadecimal_eq, readHexadecimal_eq]
  split at h
  · next hempty =>
    -- without a digit the exponent is not looked at
    obtain ⟨hwhole, hfraction⟩ := @gather_append_mantissa _ more _ _ _ _ _ h
    have hempty' : (gather Digit.isHex 'p' 'P' floats 2 (text ++ more)).digits.isEmpty = true := by
      rw [Gathered.digits, hwhole, hfraction]
      exact hempty
    rw [Gathered.hexadecimal, if_pos hempty', Gathered.hexadecimal, if_pos hempty, Gathered.mantissa, hwhole,
      hfraction]
    rfl
  · rw [gather_append h]

/-- With two characters in view, or with one that begins no prefix, it is known whether a numeral is
hexadecimal. -/
theorem isHexadecimal_append (h : 2 ≤ text.length) :
    isHexadecimal (text ++ more) = isHexadecimal text := by
  match text with
  | [] => simp at h
  | [_] => simp at h
  | c :: d :: rest =>
    by_cases hc : c = '0'
    · subst hc
      rfl
    · simp [isHexadecimal, hc]

/-- A figure begins with a digit, or with a dot. -/
theorem reach_readDecimal_pos {c : Char} {rest : Text} (h : c.isDigit = true ∨ c = '.') :
    0 < (readDecimal (c :: rest)).reach := by
  rw [readDecimal_eq, Gathered.reach_decimal]
  refine Nat.lt_of_lt_of_le ?_ (Gathered.mantissa_le_length _)
  rcases h with hdigit | rfl
  · simp only [Gathered.mantissa, gather, List.drop_zero, List.takeWhile_cons_of_pos hdigit, List.length_cons]
    omega
  · have hwhole : ('.' :: rest).takeWhile Char.isDigit = [] := List.takeWhile_cons_of_neg (by decide)
    simp [Gathered.mantissa, gather, hwhole, fraction?, fractionLength]

/-- A hexadecimal numeral reaches behind its `0x` at least. -/
theorem two_le_reach_readHexadecimal (floats : Bool) (text : Text) : 2 ≤ (readHexadecimal floats text).reach :=
  (Gathered.marks_le_mantissa _).trans (Gathered.mantissa_le_reach (gather Digit.isHex 'p' 'P' floats 2 text))

/-- A figure reaches behind its first character at least. -/
theorem reach_readFigure_pos (dialect : Dialect) {c : Char} (rest : Text)
    (h : c.isDigit = true ∨ c = '.') : 0 < (readFigure dialect (c :: rest)).reach := by
  rw [readFigure]
  split
  · exact Nat.lt_of_succ_lt (two_le_reach_readHexadecimal _ _)
  · exact reach_readDecimal_pos h

/-- A figure that begins with a dot has a dot. -/
theorem fractional_of_dot {rest : Text} {figure : Figure}
    (h : readFigure dialect ('.' :: rest) = .ok figure) : figure.fractional = true := by
  have hdecimal : isHexadecimal ('.' :: rest) = false := by simp [isHexadecimal]
  have hwhole : ('.' :: rest).takeWhile Char.isDigit = [] :=
    List.takeWhile_cons_of_neg (by decide)
  rw [readFigure, hdecimal, if_neg Bool.false_ne_true] at h
  rw [readDecimal_eq] at h
  refine Gathered.fractional_of_decimal ?_ h
  simp [gather, hwhole, fraction?]

/-- Reading a figure that ends, or fails, before the end of the text does the same in a longer
one. -/
theorem readFigure_append {c : Char} {rest : Text} (hstart : c.isDigit = true ∨ c = '.')
    (h : (readFigure dialect (c :: rest)).reach < (c :: rest).length) :
    readFigure dialect (c :: rest ++ more) = readFigure dialect (c :: rest) := by
  cases rest with
  | nil =>
    have hone : isHexadecimal [c] = false := by simp [isHexadecimal]
    rw [readFigure, hone, if_neg Bool.false_ne_true] at h
    have : 0 < (readDecimal [c]).reach := reach_readDecimal_pos hstart
    simp only [List.length_singleton] at h
    omega
  | cons d rest =>
    rw [readFigure] at h
    rw [readFigure, isHexadecimal_append (by simp), readFigure]
    split at h
    · next hx => rw [if_pos hx, if_pos hx, readHexadecimal_append h]
    · next hx => rw [if_neg hx, if_neg hx, readDecimal_append h]

/-! ## Suffixes -/

/-- The beginnings of the suffixes of integers, the whole suffixes left out. -/
def isBegunSuffix : Text → Bool
  | [c] => isLong (some c) || c == 'u' || c == 'U'
  | [c, d] => (c == 'u' || c == 'U') && isLong (some d)
  | _ => false

/-- The imaginary suffix of a text is the same when more follows. -/
theorem imaginarySuffix_append (h : text ≠ []) :
    imaginarySuffix dialect (text ++ more) = imaginarySuffix dialect text := by
  cases text with
  | nil => exact absurd rfl h
  | cons c rest => rfl

/-- No letter of an integer's suffix begins that of an imaginary number. -/
theorem imaginarySuffix_of_isBegunSuffix (h : isBegunSuffix text = true) :
    imaginarySuffix dialect text = 0 := by
  have hletter {c : Char} (hc : isLong (some c) = true ∨ c = 'u' ∨ c = 'U') :
      (c == 'i' || c == 'I') = false := by
    simp only [isLong, Bool.or_eq_true, beq_iff_eq, Option.some.injEq] at hc
    rcases hc with (rfl | rfl) | rfl | rfl <;> decide
  match text with
  | [c] =>
    rw [isBegunSuffix, Bool.or_eq_true, Bool.or_eq_true, beq_iff_eq, beq_iff_eq, or_assoc] at h
    simp [imaginarySuffix, hletter h]
  | [c, d] =>
    rw [isBegunSuffix, Bool.and_eq_true, Bool.or_eq_true, beq_iff_eq, beq_iff_eq] at h
    simp [imaginarySuffix, hletter (.inr h.1)]

/-- The suffix of an integer is known once the text goes on behind it. -/
theorem integerSuffix_append {length : Nat} (h : integerSuffix dialect text = some length)
    (hl : length < text.length) : integerSuffix dialect (text ++ more) = some length := by
  unfold integerSuffix at h ⊢
  match text with
  | [] => simp at hl
  | [c] =>
    have hlast : isLong none = false := rfl
    simp only [List.cons_append, List.getElem?_cons_zero, List.getElem?_cons_succ,
      List.getElem?_nil, hlast] at h ⊢
    grind
  | [c, d] =>
    have hlast : isLong none = false := rfl
    simp only [List.cons_append, List.getElem?_cons_zero, List.getElem?_cons_succ,
      List.getElem?_nil, hlast] at h ⊢
    grind
  | c :: d :: e :: rest => exact h

/-- Only a dialect with 64-bit integers has suffixes to finish. -/
theorem integerSuffixes_of_none (h : integerSuffix dialect text = none) :
    dialect.has .integerSuffixes = true := by
  by_contra hno
  rw [integerSuffix, if_neg hno] at h
  cases h

/-- A suffix that is finished later was begun. -/
theorem isBegunSuffix_of_completed {length : Nat} (h : integerSuffix dialect text = none)
    (hlater : integerSuffix dialect (text ++ more) = some length) :
    isBegunSuffix text = true ∧ length ≠ 0 := by
  unfold integerSuffix at h hlater
  have hlast : isLong none = false := rfl
  match text with
  | [] => simp [isLong] at h
  | [c] =>
    simp only [isBegunSuffix, List.cons_append, List.getElem?_cons_zero, List.getElem?_cons_succ,
      List.getElem?_nil, hlast] at h hlater ⊢
    grind
  | [c, d] =>
    simp only [isBegunSuffix, List.cons_append, List.getElem?_cons_zero, List.getElem?_cons_succ,
      List.getElem?_nil, hlast] at h hlater ⊢
    grind
  | c :: d :: e :: rest =>
    simp only [List.cons_append, List.getElem?_cons_zero, List.getElem?_cons_succ] at h hlater
    rw [h] at hlater
    cases hlater

/-- The letters that finish a suffix. -/
theorem integerSuffix_completed (hsuffixes : dialect.has .integerSuffixes = true)
    (h : isBegunSuffix text = true) :
    ∃ more, integerSuffix dialect (text ++ more) = some (text ++ more).length := by
  unfold integerSuffix
  have hl : isLong (some 'l') = true := rfl
  match text with
  | [c] =>
    by_cases hu : c = 'u' ∨ c = 'U'
    · exact ⟨['l', 'l'], by simp [hsuffixes, hu, hl]⟩
    · have hlong : isLong (some c) = true := by
        simpa [isBegunSuffix, not_or.mp hu] using h
      exact ⟨['l'], by simp [hsuffixes, hu, hlong, hl]⟩
  | [c, d] =>
    simp only [isBegunSuffix, Bool.and_eq_true, Bool.or_eq_true, beq_iff_eq] at h
    exact ⟨['l'], by simp [hsuffixes, h.1, h.2, hl]⟩

/-! ## Numerals -/

section

variable {extended : Bool}

/-- A numeral is read where one is recognised. -/
theorem read_eq_ok_iff {found : Float × Nat} :
    read dialect extended text = .ok found ↔ recognise dialect extended text = .ok found := by
  rw [read]
  cases recognise dialect extended text <;> simp [Except.mapError]

/-- One is malformed where none is. -/
theorem read_eq_error_iff {fault : Fault} : read dialect extended text = .error fault ↔
    ∃ read, recognise dialect extended text = .error read ∧ malformed extended text read = fault := by
  rw [read]
  cases recognise dialect extended text <;> simp [Except.mapError]

/-- A numeral at the front of a text by its parts: a figure, how many letters the suffix of an imaginary number has,
and how many that of an integer. -/
structure Recognised (dialect : Dialect) (extended : Bool) (text : Text) (figure : Figure) (imaginary integer : Nat) :
    Prop where
  readFigure_eq : readFigure dialect text = .ok figure
  imaginarySuffix_eq : imaginarySuffix dialect (text.drop figure.length) = imaginary
  integerSuffix_eq : integerSuffix dialect (text.drop (figure.length + imaginary)) = some integer
  fits : integer ≠ 0 → imaginary = 0 ∧ figure.fractional = false
  ends : (text.drop (figure.length + imaginary + integer)).head?.any (runsOn extended) = false

/-- No numeral is recognised where its figure fails. -/
theorem recognise_of_error {read : Nat}
    (h : readFigure dialect text = .error read) : recognise dialect extended text = .error read := by
  simp only [recognise, h, bind, Except.bind]

/-- A numeral is recognised by its figure and its suffixes. -/
theorem recognise_eq_ok_iff {value : Float} {length : Nat} : recognise dialect extended text = .ok (value, length) ↔
    ∃ figure imaginary integer, Recognised dialect extended text figure imaginary integer ∧ figure.value = value ∧
      figure.length + imaginary + integer = length := by
  constructor
  · intro h
    cases hfigure : readFigure dialect text with
    | error read =>
      rw [recognise_of_error hfigure] at h
      cases h
    | ok figure =>
      simp only [recognise, hfigure, bind, Except.bind] at h
      split at h
      · cases h
      · next integer hinteger =>
        split_ifs at h with hunfit hgoes
        cases h
        refine ⟨figure, _, integer, ⟨hfigure, rfl, hinteger, fun hne => ?_, Bool.eq_false_iff.mpr hgoes⟩, rfl, rfl⟩
        simpa [hne] using hunfit
  · rintro ⟨figure, imaginary, integer, ⟨hfigure, rfl, hinteger, hfits, hends⟩, rfl, rfl⟩
    have hfit :
        ¬ (integer != 0 && (imaginarySuffix dialect (text.drop figure.length) != 0 || figure.fractional)) = true := by
      simpa only [Bool.and_eq_true, Bool.or_eq_true, bne_iff_ne, not_and, not_or, not_not, Bool.not_eq_true] using hfits
    simp only [recognise, hfigure, hinteger, bind, Except.bind]
    rw [if_neg hfit, if_neg (Bool.eq_false_iff.mp hends)]

/-- The point to which reading a numeral comes. -/
def reach : Except Nat (Float × Nat) → Nat
  | .ok (_, length) => length
  | .error read => read

/-- Reading a numeral comes at least to its suffix. -/
theorem le_reach (extended : Bool) {figure : Figure} (h : readFigure dialect text = .ok figure) :
    figure.length + imaginarySuffix dialect (text.drop figure.length) ≤
      reach (recognise dialect extended text) := by
  simp only [recognise, h, bind, Except.bind]
  split
  · exact Nat.le_refl _
  · split
    · exact Nat.le_add_right _ _
    · split <;> exact Nat.le_add_right _ _

/-- Where the suffix is in order reading comes to its end, whatever it makes of the numeral. -/
theorem reach_of_suffix (extended : Bool) {figure : Figure} {integer : Nat}
    (h : readFigure dialect text = .ok figure)
    (hinteger : integerSuffix dialect (text.drop (figure.length + imaginarySuffix dialect (text.drop figure.length))) =
      some integer) :
    reach (recognise dialect extended text) =
      figure.length + imaginarySuffix dialect (text.drop figure.length) + integer := by
  simp only [recognise, h, hinteger, bind, Except.bind]
  split
  · rfl
  · split <;> rfl

/-- An integer whose suffix the end of the text has cut short. -/
def Cut (dialect : Dialect) (text : Text) : Prop :=
  dialect.has .integerSuffixes = true ∧ ∃ figure, readFigure dialect text = .ok figure ∧
    figure.fractional = false ∧ isBegunSuffix (text.drop figure.length) = true

variable {c : Char} {rest : Text} {figure : Figure} {imaginary integer : Nat}

/-- A numeral that ends before the end of the text has the same parts in a longer one. -/
theorem Recognised.append (h : Recognised dialect extended (c :: rest) figure imaginary integer)
    (hstart : c.isDigit = true ∨ c = '.') (hl : figure.length + imaginary + integer < (c :: rest).length)
    (more : Text) : Recognised dialect extended (c :: rest ++ more) figure imaginary integer := by
  obtain ⟨hfigure, himaginary, hinteger, hfits, hends⟩ := h
  have hsame := @readFigure_append dialect more c rest hstart
  rw [hfigure, Result.reach] at hsame
  replace hsame := hsame (by omega)
  generalize c :: rest = text at *
  have hleft {count : Nat} (hcount : count < text.length) : text.drop count ≠ [] := by
    rwa [ne_eq, List.drop_eq_nil_iff, Nat.not_le]
  refine ⟨hsame, ?_, ?_, hfits, ?_⟩
  · rwa [List.drop_append_of_le_length (by omega), imaginarySuffix_append (hleft (by omega))]
  · rw [List.drop_append_of_le_length (by omega), integerSuffix_append hinteger (by rw [List.length_drop]; omega)]
  · rwa [Text.head?_drop_append more (hleft hl)]

/-- A numeral that ends behind the point at which the text was blamed was cut short in its suffix. -/
theorem Recognised.cut_of_append {more : Text} {read : Nat}
    (h : Recognised dialect extended (c :: rest ++ more) figure imaginary integer)
    (hstart : c.isDigit = true ∨ c = '.') (hbad : recognise dialect extended (c :: rest) = .error read)
    (hl : read < (c :: rest).length) : Cut dialect (c :: rest) := by
  have hsame := @readFigure_append dialect more c rest hstart
  generalize c :: rest = text at *
  cases hfigure : readFigure dialect text with
  | error count =>
    rw [recognise_of_error hfigure] at hbad
    cases hbad
    rw [hfigure] at hsame
    have hlater := h.readFigure_eq
    rw [hsame hl] at hlater
    cases hlater
  | ok found =>
    have hle := le_reach extended hfigure
    rw [hbad, reach] at hle
    have hlater := h.readFigure_eq
    rw [hfigure] at hsame
    rw [hsame (Nat.lt_of_le_of_lt ((Nat.le_add_right _ _).trans hle) hl)] at hlater
    obtain rfl := Except.ok.inj hlater
    have himaginary := h.imaginarySuffix_eq
    rw [List.drop_append_of_le_length (by omega), imaginarySuffix_append (by
      rw [ne_eq, List.drop_eq_nil_iff]
      omega)] at himaginary
    have hinteger := h.integerSuffix_eq
    rw [himaginary] at hle
    rw [List.drop_append_of_le_length (by omega)] at hinteger
    cases hsuffix : integerSuffix dialect (text.drop (found.length + imaginary)) with
    | none =>
      -- the suffix is finished by what comes, and only an integer can have one
      obtain ⟨hbegun, hne⟩ := isBegunSuffix_of_completed hsuffix hinteger
      obtain ⟨rfl, hwhole⟩ := h.fits hne
      exact ⟨integerSuffixes_of_none hsuffix, found, hfigure, hwhole, hbegun⟩
    | some length =>
      -- nothing is amiss with the shorter text either
      have hreach := reach_of_suffix extended hfigure (himaginary.symm ▸ hsuffix)
      rw [hbad, reach, himaginary] at hreach
      rw [integerSuffix_append hsuffix (by rw [List.length_drop]; omega)] at hinteger
      obtain rfl := Option.some.inj hinteger
      have hends := h.ends
      rw [Text.head?_drop_append more (by
        rw [ne_eq, List.drop_eq_nil_iff]
        omega)] at hends
      have hfine := recognise_eq_ok_iff.mpr ⟨found, imaginary, length, ⟨hfigure, himaginary, hsuffix, h.fits, hends⟩,
        rfl, rfl⟩
      rw [hbad] at hfine
      cases hfine

variable (more) in
/-- A numeral that ends before the end of the text is the same numeral in a longer one. -/
theorem read_append {value : Float} {length : Nat} (hstart : c.isDigit = true ∨ c = '.')
    (h : read dialect extended (c :: rest) = .ok (value, length)) (hl : length < (c :: rest).length) :
    read dialect extended (c :: rest ++ more) = .ok (value, length) := by
  rw [read_eq_ok_iff, recognise_eq_ok_iff] at h ⊢
  obtain ⟨figure, imaginary, integer, hparts, rfl, rfl⟩ := h
  exact ⟨figure, imaginary, integer, hparts.append hstart hl more, rfl, rfl⟩

variable (more) in
/-- A malformed numeral behind whose fault the text goes on is malformed in a longer text, unless
the text ends in the suffix of an integer. -/
theorem read_error_append {fault : Fault} (hstart : c.isDigit = true ∨ c = '.')
    (h : read dialect extended (c :: rest) = .error fault) (hend : fault.endOfInput = false)
    (hcut : ¬ Cut dialect (c :: rest)) :
    ∃ fault', read dialect extended (c :: rest ++ more) = .error fault' := by
  obtain ⟨count, hbad, rfl⟩ := read_eq_error_iff.mp h
  have hl : count < (c :: rest).length := by
    rwa [malformed, List.isEmpty_eq_false_iff, ne_eq, List.drop_eq_nil_iff, Nat.not_le] at hend
  cases hlater : read dialect extended (c :: rest ++ more) with
  | error fault' => exact ⟨fault', rfl⟩
  | ok found =>
    obtain ⟨figure, imaginary, integer, hparts, -⟩ := recognise_eq_ok_iff.mp (read_eq_ok_iff.mp hlater)
    exact absurd (hparts.cut_of_append hstart hbad hl) hcut

/-- A numeral that was cut short is one with the rest of its suffix. -/
theorem read_completed (extended : Bool) (hstart : c.isDigit = true ∨ c = '.') (h : Cut dialect (c :: rest)) :
    ∃ more value, read dialect extended (c :: rest ++ more) = .ok (value, (c :: rest ++ more).length) := by
  obtain ⟨hsuffixes, figure, hfigure, hwhole, hbegun⟩ := h
  have hleft : (c :: rest).drop figure.length ≠ [] := by
    intro hnil
    rw [hnil] at hbegun
    cases hbegun
  have hlt : figure.length < (c :: rest).length := by rwa [ne_eq, List.drop_eq_nil_iff, Nat.not_le] at hleft
  obtain ⟨more, hmore⟩ := integerSuffix_completed hsuffixes hbegun
  have hsame := @readFigure_append dialect more c rest hstart (by rw [hfigure]; exact hlt)
  rw [← List.drop_append_of_le_length hlt.le] at hmore
  refine ⟨more, figure.value, read_eq_ok_iff.mpr (recognise_eq_ok_iff.mpr
    ⟨figure, 0, _, ⟨hsame.trans hfigure, ?_, hmore, fun _ => ⟨rfl, hwhole⟩, ?_⟩, rfl, ?_⟩)⟩
  · rw [List.drop_append_of_le_length hlt.le, imaginarySuffix_append hleft, imaginarySuffix_of_isBegunSuffix hbegun]
  · rw [List.drop_eq_nil_of_le (by rw [List.length_drop]; omega)]
    rfl
  · rw [List.length_drop, List.length_append]
    omega

/-- A numeral has at least one character. -/
theorem length_of_read {value : Float} {length : Nat} (hstart : c.isDigit = true ∨ c = '.')
    (h : read dialect extended (c :: rest) = .ok (value, length)) : 1 ≤ length := by
  obtain ⟨figure, imaginary, integer, hparts, -, rfl⟩ := recognise_eq_ok_iff.mp (read_eq_ok_iff.mp h)
  have hpos := reach_readFigure_pos dialect rest hstart
  rw [hparts.readFigure_eq, Result.reach] at hpos
  omega

end

end LuaSyntax.Numeral
