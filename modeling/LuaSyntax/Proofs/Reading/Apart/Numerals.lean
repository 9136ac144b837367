import LuaSyntax.Proofs.Reading.Numerals
import LuaSyntax.Proofs.Text.Runs

/-!
# Numerals that stand apart

A numeral is read as far as it goes, and each part of it ends where the next character cannot go on with it. If
nothing of it was read beyond a certain text then it is the same numeral with anything else behind that text that
keeps it apart, since neither a space nor a tab goes on with a numeral.
-/

namespace LuaSyntax.Numeral

variable {dialect : Dialect} {text rest behind : Text} (hbehind : behind.Apart)

/-- A blank is no digit. -/
theorem blank_not_digit : ∀ c ∈ [' ', '\t'], c.isDigit = false := Text.forall_space_tab rfl rfl

/-- A blank is no hexadecimal digit. -/
theorem blank_not_hex : ∀ c ∈ [' ', '\t'], Digit.isHex c = false := Text.forall_space_tab rfl rfl

/-- No numeral runs on into a blank. -/
theorem blank_not_runsOn (extended : Bool) : ∀ c ∈ [' ', '\t'], runsOn extended c = false := by
  cases extended <;> exact Text.forall_space_tab rfl rfl

include hbehind

/-! ## Figures -/

omit hbehind in
/-- A hexadecimal figure has at least its marks. -/
theorem two_le_of_readHexadecimal {floats : Bool} {figure : Figure} (h : readHexadecimal floats text = .ok figure) :
    2 ≤ figure.length := by
  have hreach := two_le_reach_readHexadecimal floats text
  rwa [h] at hreach

/-- Digits that end with the text end there in front of anything that stands apart. -/
theorem digits_apart (h : ((text ++ rest).takeWhile Char.isDigit).length ≤ text.length) :
    (text ++ behind).takeWhile Char.isDigit = (text ++ rest).takeWhile Char.isDigit :=
  Text.takeWhile_apart hbehind blank_not_digit h

/-- A fraction that ends with the text is the same in front of anything that stands apart. -/
theorem fraction?_apart {isDigit : Char → Bool} (hdigit : ∀ c ∈ [' ', '\t'], isDigit c = false)
    (h : fractionLength (fraction? isDigit (text ++ rest)) ≤ text.length) :
    fraction? isDigit (text ++ behind) = fraction? isDigit (text ++ rest) := by
  cases text with
  | nil =>
    have hnone : fraction? isDigit rest = none := by
      cases hfraction : fraction? isDigit rest with
      | none => rfl
      | some digits =>
        rw [List.nil_append, hfraction] at h
        exact absurd h (Nat.not_succ_le_zero _)
    rw [List.nil_append, List.nil_append, hnone]
    cases behind with
    | nil => rfl
    | cons c behind =>
      have hc := hbehind c rfl
      simp only [List.mem_cons, List.not_mem_nil, or_false] at hc
      rcases hc with rfl | rfl <;> rfl
  | cons c text =>
    rw [List.cons_append, List.cons_append] at *
    by_cases hdot : c = '.'
    · subst hdot
      simp only [fraction?, fractionLength, Option.map_some, Option.getD_some, List.length_cons] at h ⊢
      rw [Text.takeWhile_apart hbehind hdigit (Nat.le_of_succ_le_succ h)]
    · have hnone (rest : Text) : fraction? isDigit (c :: rest) = none := by
        rw [fraction?.eq_def]
        split
        · next heq => exact absurd (List.cons.inj heq).1 hdot
        · rfl
      rw [hnone, hnone]

/-- Where there is no exponent there is none in front of what stands apart. -/
theorem exponent?_none_apart {lower upper : Char} (hblank : ∀ c ∈ [' ', '\t'], c ≠ lower ∧ c ≠ upper)
    (h : exponent? lower upper (text ++ rest) = none) : exponent? lower upper (text ++ behind) = none := by
  cases text with
  | nil =>
    cases behind with
    | nil => rfl
    | cons c behind =>
      obtain ⟨hlower, hupper⟩ := hblank c (hbehind c rfl)
      simp [exponent?, hlower, hupper]
  | cons c text =>
    simp only [List.cons_append, exponent?] at h ⊢
    split at h
    · split at h <;> cases h
    · next hletter => rw [if_neg hletter]

/-- An exponent that ends with the text is the same in front of anything that stands apart. -/
theorem exponent?_apart {lower upper : Char} {exponent : Exponent}
    (h : exponent? lower upper (text ++ rest) = some exponent) (hne : exponent.digits ≠ [])
    (hl : exponent.lead + exponent.digits.length ≤ text.length) :
    exponent? lower upper (text ++ behind) = some exponent := by
  have hpos := List.length_pos_iff.mpr hne
  match text with
  | [] =>
    simp only [List.length_nil] at hl
    omega
  | [c] =>
    simp only [List.cons_append, List.nil_append, exponent?] at h
    split at h
    · split at h <;> (cases h; simp only [List.length_singleton] at hl hpos; omega)
    · cases h
  | c :: d :: text =>
    simp only [List.cons_append, exponent?] at h ⊢
    split at h
    · next hletter =>
      rw [if_pos hletter]
      split at h
      · next heq =>
        obtain ⟨rfl, rfl⟩ := List.cons.inj heq
        cases h
        simp only [List.length_cons] at hl
        simp only [digits_apart hbehind (show ((text ++ rest).takeWhile Char.isDigit).length ≤ text.length by omega)]
      · next heq =>
        obtain ⟨rfl, rfl⟩ := List.cons.inj heq
        cases h
        simp only [List.length_cons] at hl
        simp only [digits_apart hbehind (show ((text ++ rest).takeWhile Char.isDigit).length ≤ text.length by omega)]
      · next hminus hplus =>
        cases h
        simp only [List.length_cons] at hl
        have hrun := @digits_apart (d :: text) rest behind hbehind (by
          rw [List.cons_append, List.length_cons]
          omega)
        rw [List.cons_append, List.cons_append] at hrun
        split
        · next heq => exact absurd (congrArg (List.cons · _) (List.cons.inj heq).1) (hminus _)
        · next heq => exact absurd (congrArg (List.cons · _) (List.cons.inj heq).1) (hplus _)
        · rw [hrun]
    · cases h

/-- What is behind the front of a text of which nothing was read beyond the text. -/
theorem fraction?_drop_apart {isDigit : Char → Bool} (hdigit : ∀ c ∈ [' ', '\t'], isDigit c = false) {count : Nat}
    (h : count + fractionLength (fraction? isDigit ((text ++ rest).drop count)) ≤ text.length) :
    fraction? isDigit ((text ++ behind).drop count) = fraction? isDigit ((text ++ rest).drop count) := by
  have hcount : count ≤ text.length := by omega
  rw [List.drop_append_of_le_length hcount] at h ⊢
  rw [List.drop_append_of_le_length hcount]
  exact fraction?_apart hbehind hdigit (by rw [List.length_drop]; omega)

/-- An exponent behind a number of characters is the same in front of anything that stands apart. -/
theorem exponent?_drop_apart {lower upper : Char} (hblank : ∀ c ∈ [' ', '\t'], c ≠ lower ∧ c ≠ upper) {count : Nat}
    (hcount : count ≤ text.length)
    (h : ∀ exponent, exponent? lower upper ((text ++ rest).drop count) = some exponent →
      exponent.digits ≠ [] ∧ count + exponent.lead + exponent.digits.length ≤ text.length) :
    exponent? lower upper ((text ++ behind).drop count) = exponent? lower upper ((text ++ rest).drop count) := by
  rw [List.drop_append_of_le_length hcount] at h ⊢
  rw [List.drop_append_of_le_length hcount]
  cases hexponent : exponent? lower upper (text.drop count ++ rest) with
  | none => exact exponent?_none_apart hbehind hblank hexponent
  | some exponent =>
    obtain ⟨hne, hl⟩ := h exponent hexponent
    exact exponent?_apart hbehind hexponent hne (by rw [List.length_drop]; omega)

/-- Parts that reach no further than a text are the same with anything behind it that keeps it apart. -/
theorem gather_apart {digit : Char → Bool} {lower upper : Char} {floats : Bool} {marks : Nat}
    (hdigit : ∀ c ∈ [' ', '\t'], digit c = false) (hblank : ∀ c ∈ [' ', '\t'], c ≠ lower ∧ c ≠ upper)
    (hpower : ∀ exponent, (gather digit lower upper floats marks (text ++ rest)).exponent = some exponent →
      exponent.digits ≠ [])
    (hl : (gather digit lower upper floats marks (text ++ rest)).length ≤ text.length) :
    gather digit lower upper floats marks (text ++ behind) = gather digit lower upper floats marks (text ++ rest) := by
  have hmantissa := (Gathered.mantissa_le_length _).trans hl
  simp only [Gathered.mantissa, gather] at hmantissa
  have hwhole : ((text ++ behind).drop marks).takeWhile digit = ((text ++ rest).drop marks).takeWhile digit := by
    rw [List.drop_append_of_le_length (by omega)] at hmantissa ⊢
    rw [List.drop_append_of_le_length (by omega)]
    exact Text.takeWhile_apart hbehind hdigit (by rw [List.length_drop]; omega)
  simp only [Gathered.length, Gathered.mantissa, gather] at hpower hl ⊢
  rw [hwhole]
  generalize ((text ++ rest).drop marks).takeWhile digit = whole at *
  cases floats with
  | false => rfl
  | true =>
    simp only [if_true] at hmantissa hpower hl ⊢
    rw [fraction?_drop_apart hbehind hdigit hmantissa]
    generalize fraction? digit ((text ++ rest).drop (whole.length + marks)) = fraction at *
    rw [exponent?_drop_apart hbehind hblank hmantissa fun exponent hexponent => ⟨hpower exponent hexponent, ?_⟩]
    rw [hexponent, Option.elim_some] at hl
    omega

omit hbehind in
/-- A decimal figure has all its parts, and its exponent has digits. -/
theorem Gathered.of_decimal {found : Gathered} {figure : Figure} (h : found.decimal = .ok figure) :
    found.length = figure.length ∧ ∀ exponent, found.exponent = some exponent → exponent.digits ≠ [] := by
  have hreach := found.reach_decimal
  rw [h] at hreach
  refine ⟨hreach.symm, ?_⟩
  rintro ⟨lead, negative, power⟩ hexponent rfl
  simp only [decimal, hexponent] at h
  cases h

omit hbehind in
/-- A hexadecimal figure has all its parts, and its exponent has digits. -/
theorem Gathered.of_hexadecimal {found : Gathered} {figure : Figure} (h : found.hexadecimal = .ok figure) :
    found.length = figure.length ∧ ∀ exponent, found.exponent = some exponent → exponent.digits ≠ [] := by
  have hreach := found.reach_hexadecimal
  rw [h] at hreach
  rw [hexadecimal] at h
  split at h
  · cases h
  · next hsome =>
    rw [if_neg hsome] at hreach
    refine ⟨hreach.symm, ?_⟩
    rintro ⟨lead, negative, power⟩ hexponent rfl
    simp only [hexponent] at h
    cases h

/-- A decimal numeral is read alike in front of anything that stands apart. -/
theorem readDecimal_apart {figure : Figure} (h : readDecimal (text ++ rest) = .ok figure)
    (hl : figure.length ≤ text.length) : readDecimal (text ++ behind) = .ok figure := by
  rw [readDecimal_eq] at h ⊢
  obtain ⟨hlength, hpower⟩ := Gathered.of_decimal h
  have hblank : ∀ c ∈ [' ', '\t'], c ≠ 'e' ∧ c ≠ 'E' := Text.forall_space_tab (by decide) (by decide)
  rwa [gather_apart hbehind blank_not_digit hblank hpower (hlength ▸ hl)]

/-- A hexadecimal numeral is read alike in front of anything that stands apart. -/
theorem readHexadecimal_apart {floats : Bool} {figure : Figure}
    (h : readHexadecimal floats (text ++ rest) = .ok figure) (hl : figure.length ≤ text.length) :
    readHexadecimal floats (text ++ behind) = .ok figure := by
  rw [readHexadecimal_eq] at h ⊢
  obtain ⟨hlength, hpower⟩ := Gathered.of_hexadecimal h
  have hblank : ∀ c ∈ [' ', '\t'], c ≠ 'p' ∧ c ≠ 'P' := Text.forall_space_tab (by decide) (by decide)
  rwa [gather_apart hbehind blank_not_hex hblank hpower (hlength ▸ hl)]

/-- Whether a numeral is hexadecimal shows in its first two characters. -/
theorem isHexadecimal_apart (h : 1 ≤ text.length) (hl : isHexadecimal (text ++ rest) = true → 2 ≤ text.length) :
    isHexadecimal (text ++ behind) = isHexadecimal (text ++ rest) := by
  match text with
  | [] => exact absurd h (Nat.not_succ_le_zero 0)
  | [c] =>
    have hnot : isHexadecimal ([c] ++ rest) = false := by
      by_contra hyes
      exact absurd (hl (Bool.not_eq_false _ ▸ hyes)) (by simp)
    rw [hnot]
    cases behind with
    | nil => simp [isHexadecimal]
    | cons d behind =>
      have hd := hbehind d rfl
      simp only [List.mem_cons, List.not_mem_nil, or_false] at hd
      by_cases hc : c = '0'
      · subst hc
        rcases hd with rfl | rfl <;> rfl
      · simp [isHexadecimal, hc]
  | c :: d :: text =>
    by_cases hc : c = '0'
    · subst hc
      rfl
    · simp [isHexadecimal, hc]

/-- The figure of a numeral is read alike in front of anything that stands apart. -/
theorem readFigure_apart {figure : Figure} (h : readFigure dialect (text ++ rest) = .ok figure)
    (htext : 1 ≤ text.length) (hl : figure.length ≤ text.length) :
    readFigure dialect (text ++ behind) = .ok figure := by
  have htwo : isHexadecimal (text ++ rest) = true → 2 ≤ text.length := by
    intro hhexadecimal
    rw [readFigure, if_pos hhexadecimal] at h
    exact (two_le_of_readHexadecimal h).trans hl
  rw [readFigure, isHexadecimal_apart hbehind htext htwo]
  rw [readFigure] at h
  split
  · next hhexadecimal =>
    rw [if_pos hhexadecimal] at h
    exact readHexadecimal_apart hbehind h hl
  · next hdecimal =>
    rw [if_neg hdecimal] at h
    exact readDecimal_apart hbehind h hl

/-! ## Suffixes -/

/-- The imaginary suffix is the same in front of anything that stands apart. -/
theorem imaginarySuffix_apart (h : imaginarySuffix dialect (text ++ rest) ≤ text.length) :
    imaginarySuffix dialect (text ++ behind) = imaginarySuffix dialect (text ++ rest) := by
  cases text with
  | cons c text => rfl
  | nil =>
    rw [List.nil_append] at h
    rw [List.nil_append, List.nil_append, Nat.le_zero.mp h]
    cases behind with
    | nil => rfl
    | cons c behind =>
      have hc := hbehind c rfl
      simp only [List.mem_cons, List.not_mem_nil, or_false] at hc
      rcases hc with rfl | rfl <;> simp [imaginarySuffix]

/-- The suffix of an integer is the same in front of anything that stands apart. -/
theorem integerSuffix_apart {length : Nat} (h : integerSuffix dialect (text ++ rest) = some length)
    (hl : length ≤ text.length) : integerSuffix dialect (text ++ behind) = some length := by
  unfold integerSuffix at h ⊢
  split at h
  · next hsuffixes =>
    rw [if_pos hsuffixes]
    have hletter : ∀ c ∈ behind.head?, isLong (some c) = false ∧ c ≠ 'u' ∧ c ≠ 'U' := by
      intro c hmem
      have hc := hbehind c hmem
      simp only [List.mem_cons, List.not_mem_nil, or_false] at hc
      rcases hc with rfl | rfl <;> decide
    match text with
    | [] =>
      obtain rfl : length = 0 := Nat.le_zero.mp hl
      cases behind with
      | nil => rfl
      | cons c behind =>
        obtain ⟨hlong, hu, hU⟩ := hletter c rfl
        simp [hlong, hu, hU]
    | [c] =>
      simp only [List.length_singleton, List.cons_append, List.getElem?_cons_zero] at h hl ⊢
      grind
    | [c, d] =>
      simp only [List.length_cons, List.length_nil, List.cons_append, List.getElem?_cons_zero,
        List.getElem?_cons_succ] at h hl ⊢
      grind
    | c :: d :: e :: text => exact h
  · next hsuffixes =>
    rw [if_neg hsuffixes]
    exact h

/-! ## Numerals -/

/-- Neither a space nor a tab goes on with a numeral. -/
theorem not_runsOn_apart {extended : Bool} {length : Nat} (hl : length ≤ text.length)
    (h : ((text ++ rest).drop length).head?.any (runsOn extended) = false) :
    ((text ++ behind).drop length).head?.any (runsOn extended) = false := by
  rw [List.drop_append_of_le_length hl] at h ⊢
  cases hdrop : text.drop length with
  | cons c text =>
    rw [hdrop] at h
    exact h
  | nil =>
    cases behind with
    | nil => rfl
    | cons c behind => exact blank_not_runsOn extended c (hbehind c rfl)

omit hbehind in
/-- A numeral that begins with a dot has at least a digit behind it. -/
theorem two_le_of_dot {extended : Bool} {digit : Char} {value : Float} {length : Nat}
    (hdigit : digit.isDigit = true) (h : read dialect extended ('.' :: digit :: rest) = .ok (value, length)) :
    2 ≤ length := by
  obtain ⟨figure, imaginary, integer, hparts, -, rfl⟩ := recognise_eq_ok_iff.mp (read_eq_ok_iff.mp h)
  have hdecimal : isHexadecimal ('.' :: digit :: rest) = false := rfl
  have hwhole : ('.' :: digit :: rest).takeWhile Char.isDigit = [] := List.takeWhile_cons_of_neg (by decide)
  have hread := hparts.readFigure_eq
  rw [readFigure, hdecimal, if_neg Bool.false_ne_true, readDecimal_eq] at hread
  have hmantissa := (gather Char.isDigit 'e' 'E' true 0 ('.' :: digit :: rest)).mantissa_le_length
  rw [(Gathered.of_decimal hread).1] at hmantissa
  simp only [Gathered.mantissa, gather, hwhole, if_true, List.length_nil, Nat.add_zero, List.drop_zero, fraction?,
    fractionLength, Option.map_some, Option.getD_some, List.takeWhile_cons_of_pos hdigit, List.length_cons] at hmantissa
  omega

/-- A numeral has the same parts with anything behind it that keeps it apart. -/
theorem Recognised.apart {extended : Bool} {figure : Figure} {imaginary integer : Nat}
    (h : Recognised dialect extended (text ++ rest) figure imaginary integer) (htext : 1 ≤ text.length)
    (hl : figure.length + imaginary + integer ≤ text.length) :
    Recognised dialect extended (text ++ behind) figure imaginary integer := by
  obtain ⟨hfigure, himaginary, hinteger, hfits, hends⟩ := h
  rw [List.drop_append_of_le_length (by omega)] at himaginary hinteger
  refine ⟨readFigure_apart hbehind hfigure htext (by omega), ?_, ?_, hfits, ?_⟩
  · rw [List.drop_append_of_le_length (by omega), imaginarySuffix_apart hbehind (by
      rw [himaginary, List.length_drop]
      omega)]
    exact himaginary
  · rw [List.drop_append_of_le_length (by omega)]
    exact integerSuffix_apart hbehind hinteger (by rw [List.length_drop]; omega)
  · exact not_runsOn_apart hbehind hl hends

/-- A numeral is the same with anything behind it that keeps it apart. -/
theorem read_apart {extended : Bool} {value : Float} {length : Nat}
    (h : read dialect extended (text ++ rest) = .ok (value, length)) (htext : 1 ≤ text.length)
    (hl : length ≤ text.length) : read dialect extended (text ++ behind) = .ok (value, length) := by
  rw [read_eq_ok_iff, recognise_eq_ok_iff] at h ⊢
  obtain ⟨figure, imaginary, integer, hparts, rfl, rfl⟩ := h
  exact ⟨figure, imaginary, integer, hparts.apart hbehind htext hl, rfl, rfl⟩

end LuaSyntax.Numeral
