import LuaSyntax.Proofs.Text.Runs
import LuaSyntax.Token.Numeral

/-!
# The forms of figures

A numeral without its suffix is a row of digits, perhaps a fraction and perhaps an exponent. Decimal and hexadecimal
ones differ in what a digit is, in the letters of the exponent and in the two characters that a hexadecimal one begins
with. The readers take as much as they can, so a text is read as it is formed if what follows can belong to no figure.
-/

namespace LuaSyntax.Numeral

variable {digit : Char → Bool} {lower upper : Char} {text whole fraction exponent rest : Text}

/-! ## Forms -/

/-- A dot and digits, or nothing. The digits may be missing. -/
def IsFraction (digit : Char → Bool) (text : Text) : Prop :=
  text = [] ∨ ∃ digits, text = '.' :: digits ∧ ∀ c ∈ digits, digit c = true

/-- A letter, perhaps a sign, and decimal digits, or nothing. -/
def IsExponent (lower upper : Char) (text : Text) : Prop :=
  text = [] ∨ ∃ letter sign digits, text = letter :: (sign ++ digits) ∧ (letter = lower ∨ letter = upper) ∧
    sign ∈ [[], ['+'], ['-']] ∧ digits ≠ [] ∧ ∀ c ∈ digits, c.isDigit = true

/-- The parts of a figure, which has a digit before or behind its dot. -/
structure Parts (digit : Char → Bool) (lower upper : Char) (whole fraction exponent : Text) : Prop where
  whole_digits : ∀ c ∈ whole, digit c = true
  is_fraction : IsFraction digit fraction
  is_exponent : IsExponent lower upper exponent
  some_digit : ∃ c ∈ whole ++ fraction, digit c = true

/-- Whether a text is a figure with digits and letters of some kind; without `floats` it has neither fraction nor
exponent. The last argument says whether it has one. -/
def IsFigure (digit : Char → Bool) (lower upper : Char) (floats : Bool) (text : Text) (fractional : Bool) : Prop :=
  ∃ whole fraction exponent, text = whole ++ (fraction ++ exponent) ∧
    Parts digit lower upper whole fraction exponent ∧ (fractional = true ↔ fraction ++ exponent ≠ []) ∧
    (floats = false → fractional = false)

/-- Whether a text is a decimal or hexadecimal figure of a dialect. -/
def IsFigureOf (dialect : Dialect) (text : Text) (fractional : Bool) : Prop :=
  IsFigure Char.isDigit 'e' 'E' true text fractional ∨
    ∃ mark figure, text = '0' :: mark :: figure ∧ (mark = 'x' ∨ mark = 'X') ∧
      IsFigure Digit.isHex 'p' 'P' (dialect.has .hexFloats) figure fractional

/-! ## Fractions -/

/-- The length of a fraction given by its tail is that of the text. -/
theorem fractionLength_tail? (text : Text) : fractionLength text.tail? = text.length := by
  cases text <;> rfl

/-- Reading finds a fraction at the front of every text, if only an empty one. -/
theorem exists_fraction (digit : Char → Bool) (text : Text) :
    ∃ fraction rest, text = fraction ++ rest ∧ IsFraction digit fraction ∧
      fraction? digit text = fraction.tail? := by
  unfold fraction?
  split
  · next rest =>
    refine ⟨'.' :: rest.takeWhile digit, rest.dropWhile digit, ?_, .inr ⟨_, rfl, ?_⟩, rfl⟩
    · rw [List.cons_append, List.takeWhile_append_dropWhile]
    · exact fun c hmem => List.all_eq_true.mp (List.all_takeWhile ..) c hmem
  · exact ⟨[], text, rfl, .inl rfl, rfl⟩

/-- A fraction is read as far as it is formed. -/
theorem IsFraction.read_eq (h : IsFraction digit fraction)
    (hrest : ∀ c ∈ rest.head?, digit c = false ∧ (fraction = [] → c ≠ '.')) :
    fraction? digit (fraction ++ rest) = fraction.tail? := by
  rcases h with rfl | ⟨digits, rfl, hdigits⟩
  · cases rest with
    | nil => rfl
    | cons c rest =>
      have hc := (hrest c rfl).2 rfl
      unfold fraction?
      split
      · next heq => exact absurd (List.cons.inj heq).1 hc
      · rfl
  · exact congrArg some (Text.takeWhile_append_iff.mpr ⟨hdigits, fun c hc => (hrest c hc).1⟩)

/-! ## Exponents -/

/-- The digits at the front are digits. -/
theorem takeWhile_isDigit (text : Text) : ∀ c ∈ text.takeWhile Char.isDigit, c.isDigit = true :=
  List.all_eq_true.mp List.all_takeWhile

/-- An exponent that is read with digits stands at the front of the text. -/
theorem exists_exponent {found : Exponent} (h : exponent? lower upper text = some found) (hdigits : found.digits ≠ []) :
    ∃ exponent rest, text = exponent ++ rest ∧ IsExponent lower upper exponent ∧ exponent ≠ [] ∧
      exponent.length = found.lead + found.digits.length := by
  cases text with
  | nil => cases h
  | cons letter more =>
    -- a sign and a run of digits behind the letter
    have hform {sign run : Text} (hletter : letter = lower ∨ letter = upper) (hsign : sign ∈ [[], ['+'], ['-']])
        (hmore : more = sign ++ run) (hrun : run.takeWhile Char.isDigit ≠ []) :
        ∃ exponent rest, letter :: more = exponent ++ rest ∧ IsExponent lower upper exponent ∧ exponent ≠ [] ∧
          exponent.length = sign.length + 1 + (run.takeWhile Char.isDigit).length := by
      refine ⟨letter :: (sign ++ run.takeWhile Char.isDigit), run.dropWhile Char.isDigit, ?_,
        .inr ⟨letter, sign, _, rfl, hletter, hsign, hrun, takeWhile_isDigit run⟩, List.cons_ne_nil _ _, ?_⟩
      · rw [hmore, List.cons_append, List.append_assoc, List.takeWhile_append_dropWhile]
      · rw [List.length_cons, List.length_append]
        omega
    simp only [exponent?] at h
    split at h
    · next hletter =>
      simp only [Bool.or_eq_true, beq_iff_eq] at hletter
      split at h <;> cases h
      · exact hform hletter (by simp) (List.singleton_append).symm hdigits
      · exact hform hletter (by simp) (List.singleton_append).symm hdigits
      · exact hform hletter (by simp) (List.nil_append _).symm hdigits
    · cases h

/-- An exponent is read as far as it is formed. -/
theorem IsExponent.read_eq (h : IsExponent lower upper exponent) (hne : exponent ≠ [])
    (hrest : ∀ c ∈ rest.head?, c.isDigit = false) :
    ∃ found, exponent? lower upper (exponent ++ rest) = some found ∧ found.digits ≠ [] ∧
      exponent.length = found.lead + found.digits.length := by
  obtain ⟨letter, sign, digits, rfl, hletter, hsign, hsome, hdigits⟩ := h.resolve_left hne
  have hrun : (digits ++ rest).takeWhile Char.isDigit = digits := Text.takeWhile_append_iff.mpr ⟨hdigits, hrest⟩
  have hletter' : (letter == lower || letter == upper) = true := by simpa using hletter
  refine ⟨⟨sign.length + 1, sign == ['-'], digits⟩, ?_, hsome, ?_⟩
  · simp only [List.mem_cons, List.not_mem_nil, or_false] at hsign
    rcases hsign with rfl | rfl | rfl
    · obtain ⟨d, more, rfl⟩ := List.exists_cons_of_ne_nil hsome
      have hd := hdigits d List.mem_cons_self
      simp only [List.cons_append, List.nil_append, exponent?, hletter', if_true] at hrun ⊢
      split
      · next heq =>
        rw [(List.cons.inj heq).1] at hd
        cases hd
      · next heq =>
        rw [(List.cons.inj heq).1] at hd
        cases hd
      · rw [hrun]
        rfl
    · simp only [List.cons_append, List.nil_append, exponent?, hletter', if_true, hrun]
      rfl
    · simp only [List.cons_append, List.nil_append, exponent?, hletter', if_true, hrun]
      rfl
  · rw [List.length_cons, List.length_append]
    exact Nat.add_right_comm _ _ _

/-- Without a mark there is no exponent. -/
theorem exponent?_eq_none (hrest : ∀ c ∈ rest.head?, c ≠ lower ∧ c ≠ upper) : exponent? lower upper rest = none := by
  cases rest with
  | nil => rfl
  | cons c rest =>
    obtain ⟨hlower, hupper⟩ := hrest c rfl
    simp [exponent?, hlower, hupper]

/-! ## Figures -/

/-- What both readers of figures have in common: whether there is a fraction or an exponent, and where the figure
ends. -/
def scan (digit : Char → Bool) (lower upper : Char) (floats : Bool) (text : Text) : Except Nat (Bool × Nat) :=
  let whole := text.takeWhile digit
  let fraction := if floats then fraction? digit (text.drop whole.length) else none
  let length := whole.length + fractionLength fraction
  if (whole ++ fraction.getD []).isEmpty then .error length
  else match (if floats then exponent? lower upper (text.drop length) else none) with
    | none => .ok (fraction.isSome, length)
    | some found =>
      if found.digits.isEmpty then .error (length + found.lead)
      else .ok (true, length + found.lead + found.digits.length)

/-- What digits and letters of exponents have to be for a figure to be read as it is formed. -/
structure Apart (digit : Char → Bool) (lower upper : Char) : Prop where
  dot : digit '.' = false
  letters : ∀ c, c = lower ∨ c = upper → digit c = false ∧ c ≠ '.'

/-- There is a tail exactly of a text that is not empty. -/
theorem isSome_tail? (text : Text) : text.tail?.isSome = true ↔ text ≠ [] := by
  cases text <;> simp

/-- What stands behind the parts of a figure. -/
theorem drop_parts (whole fraction rest : Text) :
    (whole ++ (fraction ++ rest)).drop (whole.length + fraction.length) = rest := by
  rw [← List.drop_drop, List.drop_left, List.drop_left]

/-- A dot alone is no digit, so some digit is read. -/
theorem Parts.some_read (h : Parts digit lower upper whole fraction exponent) (hapart : Apart digit lower upper) :
    (whole ++ fraction.tail?.getD []).isEmpty = false := by
  obtain ⟨c, hmem, hc⟩ := h.some_digit
  refine Bool.eq_false_iff.mpr fun hempty => ?_
  rw [List.isEmpty_iff, List.append_eq_nil_iff] at hempty
  obtain ⟨rfl, hempty⟩ := hempty
  rcases h.is_fraction with rfl | ⟨digits, rfl, -⟩
  · cases hmem
  · obtain rfl : digits = [] := hempty
    obtain rfl := List.mem_singleton.mp hmem
    rw [hapart.dot] at hc
    cases hc

/-- Neither an exponent nor what may stand behind a figure goes on with a fraction. -/
theorem Parts.head_exponent (h : Parts digit lower upper whole fraction exponent) (hapart : Apart digit lower upper)
    (hrest : ∀ c ∈ rest.head?, digit c = false ∧ c ≠ '.') :
    ∀ c ∈ (exponent ++ rest).head?, digit c = false ∧ c ≠ '.' := by
  rcases h.is_exponent with rfl | ⟨letter, sign, digits, rfl, hletter, -⟩
  · exact hrest
  · rintro c ⟨⟩
    exact hapart.letters letter hletter

/-- Neither does a fraction go on with the digits before it. -/
theorem Parts.head_fraction (h : Parts digit lower upper whole fraction exponent) (hapart : Apart digit lower upper)
    (hrest : ∀ c ∈ rest.head?, digit c = false ∧ c ≠ '.') :
    ∀ c ∈ (fraction ++ (exponent ++ rest)).head?, digit c = false := by
  rcases h.is_fraction with rfl | ⟨digits, rfl, -⟩
  · exact fun c hc => (h.head_exponent hapart hrest c hc).1
  · rintro c ⟨⟩
    exact hapart.dot

/-- A figure is read as far as it is formed. -/
theorem IsFigure.scan_eq {floats fractional : Bool} (h : IsFigure digit lower upper floats text fractional)
    (hapart : Apart digit lower upper)
    (hrest : ∀ c ∈ rest.head?, digit c = false ∧ c.isDigit = false ∧ c ∉ ['.', lower, upper]) :
    scan digit lower upper floats (text ++ rest) = .ok (fractional, text.length) := by
  obtain ⟨whole, fraction, exponent, rfl, hparts, hfractional, hfloats⟩ := h
  simp only [List.mem_cons, List.not_mem_nil, or_false, not_or] at hrest
  have hbehind : ∀ c ∈ rest.head?, digit c = false ∧ c ≠ '.' := fun c hc => ⟨(hrest c hc).1, (hrest c hc).2.2.1⟩
  have hwhole : (whole ++ (fraction ++ (exponent ++ rest))).takeWhile digit = whole :=
    Text.takeWhile_append_iff.mpr ⟨hparts.whole_digits, hparts.head_fraction hapart hbehind⟩
  have hbare : floats = false → fraction = [] ∧ exponent = [] := by
    intro hfalse
    rw [← List.append_eq_nil_iff]
    by_contra hne
    rw [hfloats hfalse] at hfractional
    exact absurd (hfractional.mpr hne) Bool.false_ne_true
  have hread : (if floats then fraction? digit (fraction ++ (exponent ++ rest)) else none) = fraction.tail? := by
    cases floats with
    | false =>
      rw [(hbare rfl).1]
      rfl
    | true =>
      have hexponent := hparts.head_exponent hapart hbehind
      exact hparts.is_fraction.read_eq fun c hc => ⟨(hexponent c hc).1, fun _ => (hexponent c hc).2⟩
  rw [List.append_assoc, List.append_assoc]
  simp only [scan, hwhole, List.drop_left, hread, hparts.some_read hapart, fractionLength_tail?, drop_parts,
    Bool.false_eq_true, if_false]
  by_cases hnone : exponent = []
  · subst hnone
    have hread : (if floats then exponent? lower upper ([] ++ rest) else none) = none := by
      cases floats with
      | false => rfl
      | true => exact exponent?_eq_none fun c hc => (hrest c hc).2.2.2
    have hsame : fraction.tail?.isSome = fractional := by
      rw [Bool.eq_iff_iff, isSome_tail?, hfractional, List.append_nil]
    simp only [hread, hsame, List.length_append, List.length_nil, Nat.add_zero]
  · obtain rfl : floats = true := by
      by_contra hfalse
      exact hnone (hbare (Bool.eq_false_iff.mpr hfalse)).2
    obtain ⟨found, hfound, hdigits, hlength⟩ := hparts.is_exponent.read_eq hnone fun c hc => (hrest c hc).2.1
    have hsame : fractional = true := hfractional.mpr fun hnil => hnone (List.append_eq_nil_iff.mp hnil).2
    have hdigits' : found.digits.isEmpty = false := by simpa using hdigits
    simp only [if_true, hfound, hdigits', hsame, hlength, List.length_append, Bool.false_eq_true, if_false,
      Nat.add_assoc]

/-- A text that is read as a figure begins with one. -/
theorem isFigure_of_scan {floats fractional : Bool} {length : Nat}
    (h : scan digit lower upper floats text = .ok (fractional, length)) :
    ∃ form rest, text = form ++ rest ∧ form.length = length ∧ IsFigure digit lower upper floats form fractional := by
  obtain ⟨whole, more, htext, hwhole⟩ : ∃ whole more, text = whole ++ more ∧ text.takeWhile digit = whole :=
    ⟨_, _, List.takeWhile_append_dropWhile.symm, rfl⟩
  have hdigits : ∀ c ∈ whole, digit c = true := hwhole ▸ List.all_eq_true.mp List.all_takeWhile
  obtain ⟨fraction, rest, rfl, hfraction, hread, hbare⟩ : ∃ fraction rest, more = fraction ++ rest ∧
      IsFraction digit fraction ∧ (if floats then fraction? digit more else none) = fraction.tail? ∧
      (floats = false → fraction = []) := by
    cases floats with
    | false => exact ⟨[], more, rfl, .inl rfl, rfl, fun _ => rfl⟩
    | true =>
      obtain ⟨fraction, rest, hmore, hfraction, hread⟩ := exists_fraction digit more
      exact ⟨fraction, rest, hmore, hfraction, hread, nofun⟩
  subst htext
  simp only [scan, hwhole, List.drop_left, hread, fractionLength_tail?, drop_parts] at h
  split at h
  · cases h
  next hsome =>
  have hdigit : ∃ c ∈ whole ++ fraction, digit c = true := by
    rw [List.isEmpty_iff, List.append_eq_nil_iff, not_and_or] at hsome
    rcases hsome with hne | hne
    · obtain ⟨c, others, rfl⟩ := List.exists_cons_of_ne_nil hne
      exact ⟨c, List.mem_cons_self, hdigits c List.mem_cons_self⟩
    · rcases hfraction with rfl | ⟨digits, rfl, hall⟩
      · exact absurd rfl hne
      · obtain ⟨c, others, rfl⟩ := List.exists_cons_of_ne_nil (show digits ≠ [] from hne)
        exact ⟨c, by simp, hall c List.mem_cons_self⟩
  split at h
  · cases h
    refine ⟨whole ++ (fraction ++ []), rest, by simp, by simp, whole, fraction, [], rfl,
      ⟨hdigits, hfraction, .inl rfl, hdigit⟩, ?_, fun hfalse => ?_⟩
    · rw [isSome_tail?, List.append_nil]
    · rw [hbare hfalse]
      rfl
  · next found hfound =>
    obtain rfl : floats = true := by
      by_contra hfalse
      rw [if_neg hfalse] at hfound
      cases hfound
    split at h
    · cases h
    next hdigits' =>
    cases h
    obtain ⟨exponent, rest, rfl, hexponent, hne, hlength⟩ :=
      exists_exponent (by simpa using hfound) (by simpa using hdigits')
    refine ⟨whole ++ (fraction ++ exponent), rest, by simp, ?_, whole, fraction, exponent, rfl,
      ⟨hdigits, hfraction, hexponent, hdigit⟩, ?_, nofun⟩
    · rw [List.length_append, List.length_append, hlength]
      omega
    · exact iff_of_true rfl fun hnil => hne (List.append_eq_nil_iff.mp hnil).2

/-! ## Decimal and hexadecimal figures -/

/-- Whether a text begins with a digit, or with a dot and a digit. -/
def Starts (text : Text) : Prop :=
  ∃ lead digit rest, text = lead ++ digit :: rest ∧ lead ∈ [[], ['.']] ∧ digit.isDigit = true

/-- A character that can belong to no figure. -/
structure Stops (c : Char) : Prop where
  not_hex : Digit.isHex c = false
  not_mem : c ∉ ['.', 'p', 'P', 'x', 'X']

/-- A decimal digit is a hexadecimal one. -/
theorem isHex_of_isDigit {c : Char} (h : c.isDigit = true) : Digit.isHex c = true := by
  rw [Digit.isHex, Digit.hex?, if_pos h]
  rfl

/-- What stops a numeral is no digit. -/
theorem Stops.not_digit {c : Char} (h : Stops c) : c.isDigit = false := by
  refine Bool.eq_false_iff.mpr fun hdigit => ?_
  have := h.not_hex
  rw [isHex_of_isDigit hdigit] at this
  cases this

/-- What stops a numeral is no point and no mark of an exponent. -/
theorem Stops.decimal {c : Char} (h : Stops c) : c ∉ ['.', 'e', 'E'] := by
  obtain ⟨hhex, hmem⟩ := h
  intro hc
  simp only [List.mem_cons, List.not_mem_nil, or_false] at hc
  rcases hc with rfl | rfl | rfl
  · simp at hmem
  · cases hhex
  · cases hhex

/-- Decimal digits are apart from the marks of a decimal numeral. -/
theorem apart_decimal : Apart Char.isDigit 'e' 'E' :=
  ⟨rfl, by rintro c (rfl | rfl) <;> exact ⟨rfl, by decide⟩⟩

/-- Hexadecimal digits are apart from the marks of a hexadecimal numeral. -/
theorem apart_hexadecimal : Apart Digit.isHex 'p' 'P' :=
  ⟨rfl, by rintro c (rfl | rfl) <;> exact ⟨rfl, by decide⟩⟩

/-- A decimal numeral is read where one is recognised. -/
theorem readDecimal_iff {fractional : Bool} {length : Nat} (h : Starts text) :
    (∃ value, readDecimal text = .ok ⟨value, fractional, length⟩) ↔
      scan Char.isDigit 'e' 'E' true text = .ok (fractional, length) := by
  have hsome : (text.takeWhile Char.isDigit ++
      (fraction? Char.isDigit (text.drop (text.takeWhile Char.isDigit).length)).getD []).isEmpty = false := by
    obtain ⟨lead, digit, rest, rfl, hlead, hdigit⟩ := h
    simp only [List.mem_cons, List.not_mem_nil, or_false] at hlead
    rcases hlead with rfl | rfl
    · simp [hdigit]
    · simp [show Char.isDigit '.' = false from rfl, fraction?, hdigit]
  simp only [readDecimal, scan, if_true, hsome, Bool.false_eq_true, if_false]
  generalize exponent? 'e' 'E' _ = found
  rcases found with _ | ⟨lead, negative, power⟩
  · simp
  · cases power <;> simp

/-- A hexadecimal numeral is read where one is recognised behind its `0x`. -/
theorem readHexadecimal_iff {floats fractional : Bool} {length : Nat} :
    (∃ value, readHexadecimal floats text = .ok ⟨value, fractional, length⟩) ↔
      ∃ count, scan Digit.isHex 'p' 'P' floats (text.drop 2) = .ok (fractional, count) ∧ length = count + 2 := by
  simp only [readHexadecimal, scan, List.drop_drop, Nat.add_comm 2]
  generalize (text.drop 2).takeWhile Digit.isHex = whole
  generalize (if floats = true then fraction? Digit.isHex (text.drop (whole.length + 2)) else none) = fraction
  cases (whole ++ fraction.getD []).isEmpty with
  | true => simp
  | false =>
    rw [Nat.add_right_comm]
    generalize (if floats = true then exponent? 'p' 'P' _ else none) = found
    rcases found with _ | ⟨lead, negative, power⟩
    · simp [Nat.add_right_comm, @eq_comm _ length]
    · cases power <;> simp [Nat.add_right_comm, @eq_comm _ length]

end LuaSyntax.Numeral
