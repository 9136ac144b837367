import LuaSyntax.Proofs.Reading.Apart.Numerals
import LuaSyntax.Proofs.Reading.Forms.Figures
import LuaSyntax.Proofs.Reading.Layout
import LuaSyntax.Proofs.Reading.Lexemes
import LuaSyntax.Proofs.Reading.Tokens

/-!
# Numerals are read as far as they go

A numeral is a figure and perhaps a suffix, which LuaJIT alone has. Where a digit stands, or a dot and a digit, a
lexer reads a numeral or fails: what it takes is a numeral of the dialect with nothing behind it that goes on with a
name or a number, and it takes that text wherever there is one. If there is none the numeral is malformed.
-/

namespace LuaSyntax

variable {dialect : Dialect} {text rest : Text} {fractional extended : Bool}

namespace Numeral

/-! ## Forms -/

/-- The suffixes of a dialect, given whether the figure before them has a fraction or an exponent. -/
inductive IsSuffix (dialect : Dialect) : Bool → Text → Prop
  | none {fractional : Bool} : IsSuffix dialect fractional []
  | imaginary {fractional : Bool} {c : Char} : dialect = .luaJit → c ∈ ['i', 'I'] → IsSuffix dialect fractional [c]
  | integer {lead : Text} {c d : Char} : dialect = .luaJit → lead ∈ [[], ['u'], ['U']] → c ∈ ['l', 'L'] →
      d ∈ ['l', 'L'] → IsSuffix dialect false (lead ++ [c, d])

/-- Whether a text is a numeral of a dialect. -/
def IsNumeral (dialect : Dialect) (text : Text) : Prop :=
  ∃ figure suffix fractional, text = figure ++ suffix ∧ IsFigureOf dialect figure fractional ∧
    IsSuffix dialect fractional suffix

/-- Whether a text ends a numeral before it: it does not begin with a character of names or a dot. -/
def Ends (extended : Bool) (rest : Text) : Prop :=
  ∀ c ∈ rest.head?, NameCharacter.isPart extended c = false ∧ c ≠ '.'

/-! ## Figures -/

/-- What a decimal figure is made of. -/
theorem IsFigure.decimal_mem (h : IsFigure Char.isDigit 'e' 'E' true text fractional) :
    ∀ c ∈ text, c.isDigit = true ∨ c ∈ ['.', 'e', 'E', '+', '-'] := by
  obtain ⟨whole, fraction, exponent, rfl, hparts, -⟩ := h
  refine List.forall_mem_append.mpr ⟨fun c hc => .inl (hparts.whole_digits c hc), List.forall_mem_append.mpr ⟨?_, ?_⟩⟩
  · rcases hparts.is_fraction with rfl | ⟨digits, rfl, hdigits⟩
    · exact List.forall_mem_nil _
    · exact List.forall_mem_cons.mpr ⟨.inr (by simp), fun c hc => .inl (hdigits c hc)⟩
  · rcases hparts.is_exponent with rfl | ⟨letter, sign, digits, rfl, hletter, hsign, -, hdigits⟩
    · exact List.forall_mem_nil _
    · refine List.forall_mem_cons.mpr ⟨.inr (by rcases hletter with rfl | rfl <;> simp), ?_⟩
      refine List.forall_mem_append.mpr ⟨fun c hc => .inr ?_, fun c hc => .inl (hdigits c hc)⟩
      simp only [List.mem_cons, List.not_mem_nil, or_false] at hsign
      rcases hsign with rfl | rfl | rfl
      · cases hc
      · simp_all
      · simp_all

/-- A decimal figure begins with a digit, or with a dot and a digit. -/
theorem IsFigure.starts (h : IsFigure Char.isDigit 'e' 'E' true text fractional) (rest : Text) :
    Starts (text ++ rest) := by
  obtain ⟨whole, fraction, exponent, rfl, hparts, -⟩ := h
  cases whole with
  | cons c whole => exact ⟨[], c, _, rfl, by simp, hparts.whole_digits c List.mem_cons_self⟩
  | nil =>
    obtain ⟨c, hmem, hc⟩ := hparts.some_digit
    rcases hparts.is_fraction with rfl | ⟨digits, rfl, hdigits⟩
    · cases hmem
    · cases digits with
      | nil =>
        obtain rfl := List.mem_singleton.mp hmem
        cases hc
      | cons d digits => exact ⟨['.'], d, _, rfl, by simp, hdigits d List.mem_cons_self⟩

/-- A hexadecimal numeral begins with `0x` or `0X`. -/
theorem isHexadecimal_iff :
    isHexadecimal text = true ↔ ∃ mark more, text = '0' :: mark :: more ∧ (mark = 'x' ∨ mark = 'X') := by
  unfold isHexadecimal
  split
  · next mark more =>
    simp only [Bool.or_eq_true, beq_iff_eq]
    constructor
    · exact fun h => ⟨mark, more, rfl, h⟩
    · rintro ⟨_, _, ⟨⟩, h⟩
      exact h
  · next hne =>
    refine iff_of_false Bool.false_ne_true ?_
    rintro ⟨mark, more, rfl, -⟩
    exact hne mark more rfl

/-- What stops a figure does not make it hexadecimal. -/
theorem IsFigure.not_isHexadecimal (h : IsFigure Char.isDigit 'e' 'E' true text fractional)
    (hrest : ∀ c ∈ rest.head?, Stops c) : isHexadecimal (text ++ rest) = false := by
  refine Bool.eq_false_iff.mpr fun hhexadecimal => ?_
  obtain ⟨mark, more, hwhole, hmark⟩ := isHexadecimal_iff.mp hhexadecimal
  match text, h, hwhole with
  | [], _, hwhole =>
    have := (hrest '0' (by rw [← List.nil_append rest, hwhole]; rfl)).not_hex
    cases this
  | [c], _, hwhole =>
    obtain rfl : rest = mark :: more := (List.cons.inj hwhole).2
    have hhead := (hrest mark rfl).not_mem
    rcases hmark with rfl | rfl <;> simp at hhead
  | c :: d :: text, h, hwhole =>
    obtain rfl : d = mark := (List.cons.inj (List.cons.inj hwhole).2).1
    rcases hmark with rfl | rfl
    · rcases h.decimal_mem 'x' (by simp) with hdigit | hmem
      · cases hdigit
      · simp at hmem
    · rcases h.decimal_mem 'X' (by simp) with hdigit | hmem
      · cases hdigit
      · simp at hmem

/-- A figure of a dialect is read as far as it is formed. -/
theorem IsFigureOf.read_eq (h : IsFigureOf dialect text fractional) (hrest : ∀ c ∈ rest.head?, Stops c) :
    ∃ value, readFigure dialect (text ++ rest) = .ok ⟨value, fractional, text.length⟩ := by
  rcases h with h | ⟨mark, figure, rfl, hmark, h⟩
  · rw [readFigure, h.not_isHexadecimal hrest, if_neg Bool.false_ne_true, readDecimal_iff (h.starts rest)]
    exact h.scan_eq apart_decimal fun c hc => ⟨(hrest c hc).not_digit, (hrest c hc).not_digit, (hrest c hc).decimal⟩
  · have hhexadecimal : isHexadecimal ('0' :: mark :: figure ++ rest) = true :=
      isHexadecimal_iff.mpr ⟨mark, figure ++ rest, rfl, hmark⟩
    rw [readFigure, hhexadecimal, if_pos rfl, readHexadecimal_iff]
    refine ⟨figure.length, h.scan_eq apart_hexadecimal fun c hc => ⟨(hrest c hc).not_hex, (hrest c hc).not_digit, ?_⟩,
      rfl⟩
    have := (hrest c hc).not_mem
    simp only [List.mem_cons, not_or] at this ⊢
    exact ⟨this.1, this.2.1, this.2.2.1, List.not_mem_nil⟩

/-- A text that is read as a figure of a dialect begins with one. -/
theorem isFigureOf_of_read {figure : Figure} (hstarts : Starts text) (h : readFigure dialect text = .ok figure) :
    ∃ form rest, text = form ++ rest ∧ form.length = figure.length ∧ IsFigureOf dialect form figure.fractional := by
  obtain ⟨value, fractional, length⟩ := figure
  rw [readFigure] at h
  split at h
  · next hhexadecimal =>
    obtain ⟨count, hscan, rfl⟩ := readHexadecimal_iff.mp ⟨value, h⟩
    obtain ⟨form, rest, hform, rfl, hfigure⟩ := isFigure_of_scan hscan
    obtain ⟨mark, more, rfl, hmark⟩ := isHexadecimal_iff.mp hhexadecimal
    obtain rfl : more = form ++ rest := hform
    exact ⟨'0' :: mark :: form, rest, rfl, rfl, .inr ⟨mark, form, rfl, hmark, hfigure⟩⟩
  · obtain ⟨form, rest, hform, hlength, hfigure⟩ := isFigure_of_scan ((readDecimal_iff hstarts).mp ⟨value, h⟩)
    exact ⟨form, rest, hform, hlength, .inl hfigure⟩

/-! ## Suffixes -/

/-- Imaginary numbers are those of LuaJIT. -/
theorem isImaginary_iff : dialect.has .imaginaryNumbers = true ↔ dialect = .luaJit := by
  cases dialect <;> decide

/-- Suffixed integers are those of LuaJIT. -/
theorem isSuffixed_iff : dialect.has .integerSuffixes = true ↔ dialect = .luaJit := by
  cases dialect <;> decide

/-- What ends a numeral is no letter. -/
theorem Ends.not_isAlpha (h : Ends extended rest) : ∀ c ∈ rest.head?, c.isAlpha = false := by
  intro c hc
  have := (h c hc).1
  simp only [NameCharacter.isPart, NameCharacter.isStart, Bool.or_eq_false_iff] at this
  exact this.1.1.1.1

/-- Without its letter there is no imaginary suffix. -/
theorem imaginarySuffix_of_head (h : ∀ c ∈ text.head?, c ∉ ['i', 'I']) : imaginarySuffix dialect text = 0 := by
  cases text with
  | nil => rfl
  | cons c text =>
    have := h c rfl
    simp only [List.mem_cons, List.not_mem_nil, or_false, not_or] at this
    simp [imaginarySuffix, this]

/-- Without its letter there is no suffix of an integer. -/
theorem integerSuffix_of_head (h : ∀ c ∈ text.head?, c ∉ ['u', 'U', 'l', 'L']) :
    integerSuffix dialect text = some 0 := by
  cases text with
  | nil => simp [integerSuffix, isLong]
  | cons c text =>
    have := h c rfl
    simp only [List.mem_cons, List.not_mem_nil, or_false, not_or] at this
    simp [integerSuffix, isLong, this]

/-- What is read as the suffix of an imaginary number is one. -/
theorem imaginarySuffix_cases (dialect : Dialect) (text : Text) :
    imaginarySuffix dialect text = 0 ∨
      dialect = .luaJit ∧ ∃ c ∈ ['i', 'I'], [c] <+: text ∧ imaginarySuffix dialect text = 1 := by
  cases text with
  | nil => exact .inl rfl
  | cons c text =>
    simp only [imaginarySuffix]
    split
    · next h =>
      rw [Bool.and_eq_true, isImaginary_iff] at h
      exact .inr ⟨h.1, c, by simpa using h.2, ⟨text, rfl⟩, rfl⟩
    · exact .inl rfl

/-- The letter of a long integer is `l` or `L`. -/
theorem isLong_iff {c : Option Char} : isLong c = true ↔ ∃ d ∈ ['l', 'L'], c = some d := by
  simp [isLong]

/-- What is read as the suffix of an integer is one. -/
theorem integerSuffix_cases {count : Nat} (h : integerSuffix dialect text = some count) :
    count = 0 ∨ dialect = .luaJit ∧ ∃ lead c d, lead ∈ [[], ['u'], ['U']] ∧ c ∈ ['l', 'L'] ∧ d ∈ ['l', 'L'] ∧
      lead ++ [c, d] <+: text ∧ (lead ++ [c, d]).length = count := by
  simp only [integerSuffix] at h
  split at h
  · next hjit =>
    rw [isSuffixed_iff] at hjit
    split at h
    · next hlead =>
      split at h
      · next hlong =>
        cases h
        rw [Bool.and_eq_true, isLong_iff, isLong_iff] at hlong
        obtain ⟨⟨c, hc, hone⟩, d, hd, htwo⟩ := hlong
        rcases text with _ | ⟨a, _ | ⟨b, _ | ⟨e, more⟩⟩⟩
        · cases hone
        · cases hone
        · cases htwo
        · obtain rfl := Option.some.inj hone
          obtain rfl := Option.some.inj htwo
          exact .inr ⟨hjit, [a], b, e, by simpa using hlead, hc, hd, ⟨more, rfl⟩, rfl⟩
      · cases h
    · split at h
      · next hzero =>
        split at h
        · next hone =>
          cases h
          rw [isLong_iff] at hzero hone
          obtain ⟨c, hc, hzero⟩ := hzero
          obtain ⟨d, hd, hone⟩ := hone
          rcases text with _ | ⟨a, _ | ⟨b, more⟩⟩
          · cases hone
          · cases hone
          · obtain rfl := Option.some.inj hzero
            obtain rfl := Option.some.inj hone
            exact .inr ⟨hjit, [], a, b, by simp, hc, hd, ⟨more, rfl⟩, rfl⟩
        · cases h
      · cases h
        exact .inl rfl
  · cases h
    exact .inl rfl

/-- The suffix of a numeral is read as far as it is formed, and nothing else is. -/
theorem suffix_iff (hrest : Ends extended rest) :
    (∃ integer, integerSuffix dialect ((text ++ rest).drop (imaginarySuffix dialect (text ++ rest))) = some integer ∧
        (integer ≠ 0 → imaginarySuffix dialect (text ++ rest) = 0 ∧ fractional = false) ∧
        text.length = imaginarySuffix dialect (text ++ rest) + integer) ↔
      IsSuffix dialect fractional text := by
  have hhead : ∀ c ∈ rest.head?, c ∉ ['i', 'I'] ∧ c ∉ ['u', 'U', 'l', 'L'] := by
    intro c hc
    have halpha := hrest.not_isAlpha c hc
    constructor <;> intro hmem <;> simp only [List.mem_cons, List.not_mem_nil, or_false] at hmem
    · rcases hmem with rfl | rfl <;> cases halpha
    · rcases hmem with rfl | rfl | rfl | rfl <;> cases halpha
  constructor
  · rintro ⟨integer, hinteger, honly, hlength⟩
    rcases imaginarySuffix_cases dialect (text ++ rest) with hnone | ⟨rfl, c, hc, hprefix, hone⟩
    · rw [hnone, List.drop_zero] at hinteger
      rw [hnone, Nat.zero_add] at hlength
      rcases integerSuffix_cases hinteger with rfl | ⟨rfl, lead, c, d, hlead, hc, hd, hprefix, rfl⟩
      · obtain rfl := List.eq_nil_of_length_eq_zero hlength
        exact .none
      · obtain rfl := Text.eq_of_prefix_append hprefix hlength.symm
        obtain rfl := (honly (by simp)).2
        exact .integer rfl hlead hc hd
    · obtain rfl : integer = 0 := by
        by_contra hne
        have := (honly hne).1
        omega
      obtain rfl := Text.eq_of_prefix_append hprefix (by rw [hlength, hone]; rfl)
      exact .imaginary rfl hc
  · intro h
    cases h with
    | none =>
      have hnone := @imaginarySuffix_of_head dialect _ fun c hc => (hhead c hc).1
      have hzero := @integerSuffix_of_head dialect _ fun c hc => (hhead c hc).2
      exact ⟨0, by rw [List.nil_append, hnone, List.drop_zero, hzero], by simp, by rw [List.nil_append, hnone]; rfl⟩
    | @imaginary _ c hjit hc =>
      have hone : imaginarySuffix dialect ([c] ++ rest) = 1 := by
        subst hjit
        simp only [List.mem_cons, List.not_mem_nil, or_false] at hc
        rcases hc with rfl | rfl <;> rfl
      have hzero := @integerSuffix_of_head dialect _ fun c hc => (hhead c hc).2
      exact ⟨0, by rw [hone]; exact hzero, by simp, by rw [hone]; rfl⟩
    | @integer lead c d hjit hlead hc hd =>
      subst hjit
      simp only [List.mem_cons, List.not_mem_nil, or_false] at hlead hc hd
      rcases hlead with rfl | rfl | rfl <;> rcases hc with rfl | rfl <;> rcases hd with rfl | rfl <;>
        exact ⟨_, rfl, fun _ => ⟨rfl, rfl⟩, rfl⟩

/-! ## Numerals -/

/-- A letter is part of a name. -/
theorem isPart_of_isAlpha {c : Char} (h : c.isAlpha = true) (extended : Bool) :
    NameCharacter.isPart extended c = true := by
  simp [NameCharacter.isPart, NameCharacter.isStart, h]

/-- A hexadecimal digit is part of a name. -/
theorem isPart_of_isHex {c : Char} (h : Digit.isHex c = true) (extended : Bool) :
    NameCharacter.isPart extended c = true := by
  simp only [Digit.isHex, Digit.hex?] at h
  split at h
  · next hdigit => simp [NameCharacter.isPart, hdigit]
  split at h
  · next hlower =>
    rw [Bool.and_eq_true, decide_eq_true_eq, decide_eq_true_eq] at hlower
    have hletter : c.isLower = true := Bool.and_eq_true_iff.mpr
      ⟨decide_eq_true hlower.1, decide_eq_true (Char.le_trans hlower.2 (by decide : 'f' ≤ 'z'))⟩
    exact isPart_of_isAlpha (Bool.or_eq_true_iff.mpr (.inr hletter)) extended
  split at h
  · next hupper =>
    rw [Bool.and_eq_true, decide_eq_true_eq, decide_eq_true_eq] at hupper
    have hletter : c.isUpper = true :=
      decide_eq_true ⟨hupper.1, Char.le_trans hupper.2 (by decide : 'F' ≤ 'Z')⟩
    exact isPart_of_isAlpha (Bool.or_eq_true_iff.mpr (.inl hletter)) extended
  · cases h

/-- What ends a numeral belongs to no figure. -/
theorem Ends.stops (h : Ends extended rest) : ∀ c ∈ rest.head?, Stops c := by
  intro c hc
  obtain ⟨hpart, hdot⟩ := h c hc
  have halpha := h.not_isAlpha c hc
  refine ⟨Bool.eq_false_iff.mpr fun hhex => ?_, fun hmem => ?_⟩
  · rw [isPart_of_isHex hhex] at hpart
    cases hpart
  · simp only [List.mem_cons, List.not_mem_nil, or_false] at hmem
    rcases hmem with rfl | rfl | rfl | rfl | rfl
    · exact hdot rfl
    all_goals cases halpha

/-- Neither does a suffix. -/
theorem IsSuffix.stops (h : IsSuffix dialect fractional text) (hrest : Ends extended rest) :
    ∀ c ∈ (text ++ rest).head?, Stops c := by
  cases h with
  | none => exact hrest.stops
  | imaginary _ hletter =>
    rintro c ⟨⟩
    simp only [List.mem_cons, List.not_mem_nil, or_false] at hletter
    rcases hletter with rfl | rfl <;> exact ⟨rfl, by decide⟩
  | integer _ hlead hletter _ =>
    simp only [List.mem_cons, List.not_mem_nil, or_false] at hlead hletter
    rcases hlead with rfl | rfl | rfl
    · rintro c ⟨⟩
      rcases hletter with rfl | rfl <;> exact ⟨rfl, by decide⟩
    all_goals
      rintro c ⟨⟩
      exact ⟨rfl, by decide⟩

/-- A numeral ends where it does not run on. -/
theorem ends_iff : Ends extended rest ↔ rest.head?.any (runsOn extended) = false := by
  cases rest <;> simp [Ends, runsOn]

/-- Where a figure begins, what is recognised is the text that is a numeral and is followed by what ends one. -/
theorem recognise_prefix_iff {raw : Text} (hstarts : Starts text) :
    (raw <+: text ∧ ∃ value, recognise dialect extended text = .ok (value, raw.length)) ↔
      ∃ behind, text = raw ++ behind ∧ IsNumeral dialect raw ∧ Ends extended behind := by
  simp only [recognise_eq_ok_iff]
  constructor
  · rintro ⟨⟨behind, rfl⟩, value, figure, imaginary, integer, ⟨hfigure, rfl, hinteger, hfits, hends⟩, -, hlength⟩
    rw [hlength, List.drop_left, ← ends_iff] at hends
    rw [← List.drop_drop] at hinteger
    obtain ⟨form, rest, hform, hcount, hisFigure⟩ := isFigureOf_of_read hstarts hfigure
    obtain ⟨suffix, rfl⟩ : form <+: raw :=
      List.prefix_of_prefix_length_le ⟨rest, hform.symm⟩ (List.prefix_append ..) (by omega)
    rw [List.append_assoc, List.append_cancel_left_eq] at hform
    rw [← hcount, List.append_assoc, List.drop_left] at hinteger hfits
    rw [← hcount, List.append_assoc, List.drop_left, List.length_append, Nat.add_assoc, Nat.add_left_cancel_iff] at hlength
    exact ⟨behind, rfl, ⟨form, suffix, figure.fractional, rfl, hisFigure,
      (suffix_iff hends).mp ⟨integer, hinteger, hfits, hlength.symm⟩⟩, hends⟩
  · rintro ⟨behind, rfl, ⟨form, suffix, fractional, rfl, hfigure, hsuffix⟩, hends⟩
    obtain ⟨value, hread⟩ := hfigure.read_eq (hsuffix.stops hends)
    obtain ⟨integer, hinteger, hfits, hlength⟩ := (suffix_iff hends).mpr hsuffix
    have hall : form.length + imaginarySuffix dialect (suffix ++ behind) + integer = (form ++ suffix).length := by
      rw [List.length_append, hlength, Nat.add_assoc]
    refine ⟨List.prefix_append .., value, ⟨value, fractional, form.length⟩, _, integer, ⟨?_, ?_, ?_, hfits, ?_⟩, rfl, hall⟩
    · rw [List.append_assoc, hread]
    · rw [List.append_assoc, List.drop_left]
    · rwa [← List.drop_drop, List.append_assoc, List.drop_left]
    · rwa [hall, List.drop_left, ← ends_iff]

/-- Whatever else stands there is malformed. -/
theorem message_of_read {fault : Fault} (h : read dialect extended text = .error fault) :
    fault.message = .malformedNumber := by
  obtain ⟨count, -, rfl⟩ := read_eq_error_iff.mp h
  rfl

/-! ## Lexemes -/

/-- A digit is no blank. -/
theorem isBlank_of_isDigit {c : Char} (h : c.isDigit = true) : Text.isBlank c = false := by
  refine Bool.eq_false_iff.mpr fun hblank => ?_
  simp only [Text.isBlank, Bool.or_eq_true, beq_iff_eq] at hblank
  rcases hblank with ((rfl | rfl) | rfl) | rfl <;> cases h

/-- Where a figure begins a lexeme does. -/
theorem Starts.piece_eq (h : Starts text) : Trivium.piece text = .stop := by
  obtain ⟨lead, digit, rest, rfl, hlead, hdigit⟩ := h
  simp only [List.mem_cons, List.not_mem_nil, or_false] at hlead
  rcases hlead with rfl | rfl
  · refine Trivium.piece_eq_stop_iff.mpr
      ⟨isBlank_of_isDigit hdigit, Text.isLineEnd_of_isDigit digit hdigit, ?_⟩
    rintro ⟨rfl, -⟩
    cases hdigit
  · exact Trivium.piece_eq_stop_iff.mpr ⟨rfl, rfl, fun h => absurd h.1 (by decide)⟩

/-- That lexeme is a number. -/
theorem Starts.lexeme_eq (h : Starts text) (options : ParseOptions) (line : Nat) :
    Lexeme.read options line text = (read options.dialect options.extendedIdentifiers text).map
      fun (value, length) => (.number value, length) := by
  obtain ⟨lead, digit, rest, rfl, hlead, hdigit⟩ := h
  simp only [List.mem_cons, List.not_mem_nil, or_false] at hlead
  rcases hlead with rfl | rfl
  · exact Lexeme.read_numeral (.of_isDigit hdigit)
  · exact Lexeme.read_numeral (by simp [Lexeme.IsNumeral, hdigit])

/-- Where a numeral starts, a number is read exactly when a numeral is recognised. -/
theorem Starts.lexeme_iff {options : ParseOptions} {line length : Nat} {value : Float} (h : Starts text) :
    Lexeme.read options line text = .ok (.number value, length) ↔
      recognise options.dialect options.extendedIdentifiers text = .ok (value, length) := by
  rw [h.lexeme_eq, read]
  cases recognise options.dialect options.extendedIdentifiers text <;> simp [Except.map, Except.mapError, Prod.ext_iff]

end Numeral

namespace Lexer

variable {lexer : Lexer} {gap : Text}

/-- Where a figure begins, a lexer takes the text that is a numeral and is followed by what ends one, and fails if
there is none. -/
theorem takes_numeral_iff (hrest : lexer.rest = some (gap ++ text)) (hgap : Filled true gap)
    (hstarts : Numeral.Starts text) :
    (∀ raw, (∃ number, lexer.Takes gap raw (.number number)) ↔ ∃ behind, text = raw ++ behind ∧
        Numeral.IsNumeral lexer.options.dialect raw ∧ Numeral.Ends lexer.options.extendedIdentifiers behind) ∧
      ((∀ raw behind, text = raw ++ behind → ¬ (Numeral.IsNumeral lexer.options.dialect raw ∧
          Numeral.Ends lexer.options.extendedIdentifiers behind)) →
        ∃ error after, lexer.next = (.error error, after) ∧ error.message = .malformedNumber) := by
  have htakes {raw : Text} {number : Float} : lexer.Takes gap raw (.number number) ↔ raw <+: text ∧
      Numeral.recognise lexer.options.dialect lexer.options.extendedIdentifiers text = .ok (number, raw.length) := by
    rw [takes_iff hrest hgap hstarts.piece_eq, hstarts.lexeme_iff]
  constructor
  · intro raw
    simp only [htakes, exists_and_left]
    exact Numeral.recognise_prefix_iff hstarts
  · intro hnone
    have hlexeme := hstarts.lexeme_eq lexer.options (lexer.trivia (gap ++ text)).stop.line
    cases hread : Numeral.read lexer.options.dialect lexer.options.extendedIdentifiers text with
    | error fault =>
      rw [hread] at hlexeme
      obtain ⟨after, hnext⟩ := next_of_refused hrest hgap hstarts.piece_eq hlexeme
      exact ⟨_, after, hnext, Numeral.message_of_read hread⟩
    | ok found =>
      obtain ⟨value, length⟩ := found
      rw [hread] at hlexeme
      have hlength : (text.take length).length = length := by
        rw [List.length_take, Nat.min_eq_left (Lexeme.length_le_of_read hlexeme)]
      have hrecognised := Numeral.read_eq_ok_iff.mp hread
      rw [← hlength] at hrecognised
      obtain ⟨behind, htext, hnumeral⟩ :=
        (Numeral.recognise_prefix_iff hstarts).mp ⟨List.take_prefix .., value, hrecognised⟩
      exact absurd hnumeral (hnone _ _ htext)

/-- An integer of 64 bits behind a blank, and dots that are too many. -/
theorem takes_numeral_long :
    (∃ number, (start { dialect := .luaJit } [' ', '0', 'x', '1', 'F', 'U', 'L', 'L', ';']).Takes [' ']
      ['0', 'x', '1', 'F', 'U', 'L', 'L'] (.number number)) ∧
    ∃ error after, (start { } ['3', '.', '.', '2']).next = (.error error, after) ∧
      error.message = .malformedNumber := by
  have hnumeral : Numeral.IsNumeral .luaJit ['0', 'x', '1', 'F', 'U', 'L', 'L'] :=
    ⟨['0', 'x', '1', 'F'], ['U', 'L', 'L'], false, rfl,
      .inr ⟨'x', ['1', 'F'], rfl, .inl rfl, ['1', 'F'], [], [], rfl,
        ⟨by simp [Digit.isHex, Digit.hex?], .inl rfl, .inl rfl, ⟨'1', by simp, rfl⟩⟩, by simp, fun _ => rfl⟩,
      @Numeral.IsSuffix.integer _ ['U'] _ _ rfl (by simp) (by simp) (by simp)⟩
  have hends : Numeral.Ends false [';'] := by
    rintro c ⟨⟩
    exact ⟨rfl, by decide⟩
  have hdots : Numeral.Starts ['3', '.', '.', '2'] := ⟨[], '3', _, rfl, by simp, rfl⟩
  constructor
  · have hread := @takes_numeral_iff ['0', 'x', '1', 'F', 'U', 'L', 'L', ';']
      (start { dialect := .luaJit } [' ', '0', 'x', '1', 'F', 'U', 'L', 'L', ';']) [' '] rfl
      (.cons (.blank rfl) .nil) ⟨[], '0', _, rfl, by simp, rfl⟩
    exact (hread.1 _).mpr ⟨[';'], rfl, hnumeral, hends⟩
  · refine (@takes_numeral_iff _ (start { } ['3', '.', '.', '2']) [] rfl .nil hdots).2 fun raw behind htext h => ?_
    obtain ⟨-, value, hread⟩ := (Numeral.recognise_prefix_iff hdots).mpr ⟨behind, htext, h⟩
    have hbad : Numeral.recognise .lua51 false ['3', '.', '.', '2'] = .error 2 := rfl
    have hboth := hbad.symm.trans hread
    cases hboth

end Lexer

end LuaSyntax
