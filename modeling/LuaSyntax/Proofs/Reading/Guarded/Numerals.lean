import LuaSyntax.Proofs.Reading.Breaks.Lexemes
import LuaSyntax.Proofs.Reading.Forms.Numerals
import LuaSyntax.Proofs.Reading.Guarded.Cursor
import LuaSyntax.Proofs.Reading.Lengths

/-!
# Guarded reading of numerals

All characters of a numeral are ASCII, so its bytes are its characters. The digits of a hexadecimal one are counted and
added up one by one. Its exponent is a number of 32 bits with a sign, which stops growing at the largest of these: so
large a power of two is infinite, as every larger one is. A decimal numeral is cut out of the source as a whole.

A malformed numeral is shown with all characters that a name may have behind it, and these may be longer than a byte:
they are passed over as characters. A numeral stands on one line, so the error can be told with the line that reading
has come to although it is blamed on the beginning.
-/

namespace LuaSyntax

namespace Numeral

/-- The float that a text denotes, if it is a decimal numeral. -/
def float? (text : Text) : Option Float :=
  if (scan Char.isDigit 'e' 'E' true text).toOption.map Prod.snd == some text.length then
    (readDecimal text).toOption.map Figure.value
  else none

end Numeral

namespace Guarded

variable {α σ : Type} (source : Text)

/-- Whether the character that is next goes on with a numeral. -/
def atNumeral (extended : Bool) : Guarded Bool := do
  let part ← atCharacter source extended (NameCharacter.isPart extended)
  let next ← peek source 0
  pure (part || next == some '.')

/-- Stops with the error that the numeral that begins at an offset is malformed. -/
def malformed (extended : Bool) (start : Nat) : Guarded α := do
  let place ← here
  passOver source (atNumeral source extended) (turns source)
  let text ← shown source start 0
  let error ← errorAt source start .malformedNumber [text]
  blame { error with endOfInput := source.bytes.length ≤ place.offset }

/-- Reads hexadecimal digits, each of which goes into what was read before, and counts them. -/
def digits (step : σ → Nat → σ) : Nat → σ → Nat → Guarded (σ × Nat)
  | 0, _, _ => undefined
  | turns + 1, state, count => do
    match (← peek source 0).bind Digit.hex? with
    | none => pure (state, count)
    | some digit => do
      let count ← word (count + 1)
      advance source 1
      digits step turns (step state digit) count

/-- A number of 32 bits with a sign. -/
def signedWord (number : Int) : Guarded Int :=
  if -0x80000000 ≤ number ∧ number < 0x80000000 then give number else undefined

/-- A number that grows no further than the largest of 32 bits with a sign. -/
def saturate (number : Nat) : Nat := min number (2 ^ 31 - 1)

/-- Reads the digits of an exponent behind a number. -/
def exponentDigits : Nat → Nat → Guarded Nat
  | 0, _ => undefined
  | turns + 1, number => do
    match ← peek source 0 with
    | none => pure number
    | some c =>
      if c.isDigit then do
        let digit ← minus c.toNat '0'.toNat
        advance source 1
        exponentDigits turns (saturate (saturate (number * 10) + digit))
      else pure number

/-- Passes over a sign, if there is one, and says whether it is a minus. -/
def sign : Guarded Bool := do
  let c ← peek source 0
  if c == some '-' || c == some '+' then do
    advance source 1
    pure (c == some '-')
  else pure false

/-- Reads an exponent if one of two letters is next, and has its digits read. -/
def exponent (lower upper : Char) (extended : Bool) (start : Nat) (without : α) (read : Bool → Guarded α) : Guarded α := do
  let c ← peek source 0
  if c == some lower || c == some upper then do
    advance source 1
    let negative ← sign source
    if (← peek source 0).any Char.isDigit then read negative else malformed source extended start
  else pure without

/-- Passes over a decimal fraction, and says whether there is one. -/
def decimalFraction : Guarded Bool := do
  if (← peek source 0) == some '.' then do
    advance source 1
    skip source Char.isDigit
    pure true
  else pure false

/-- The float that is denoted by what was read behind an offset. -/
def floatBehind (extended : Bool) (start : Nat) (fractional : Bool) : Guarded (Float × Bool) := do
  let text ← shown source start 0
  match Numeral.float? text with
  | some value => pure (value, fractional)
  | none => malformed source extended start

/-- Reads a decimal numeral that begins at an offset, up to its suffix: its value, and whether it has a dot or an
exponent. -/
def decimalFigure (extended : Bool) (start : Nat) : Guarded (Float × Bool) := do
  skip source Char.isDigit
  let dotted ← decimalFraction source
  let powered ← exponent source 'e' 'E' extended start false fun _ => do
    skip source Char.isDigit
    pure true
  floatBehind source extended start (dotted || powered)

/-- Reads a hexadecimal fraction behind a value, if there is one, and counts its digits behind others. -/
def hexFraction (value : Float) (count : Nat) : Guarded ((Float × Nat) × Bool) := do
  if (← peek source 0) == some '.' then do
    advance source 1
    let found ← digits source (fun state digit => (state.1 + Float.ofNat digit * state.2, state.2 / Float.ofNat 16))
      (turns source) (value, Float.ofNat 1 / Float.ofNat 16) count
    pure ((found.1.1, found.2), true)
  else pure ((value, count), false)

/-- Reads the digits of an exponent with a sign, by which a value is scaled. -/
def scale (value : Float) (negative : Bool) : Guarded (Float × Bool) := do
  let number ← exponentDigits source (turns source) 0
  let power ← signedWord (if negative then -number else number)
  pure (Numeral.scaleBy value negative power.natAbs, true)

/-- Reads a hexadecimal numeral that begins at an offset, up to its suffix. -/
def hexFigure (floats extended : Bool) (start : Nat) : Guarded (Float × Bool) := do
  advance source 2
  let whole ← digits source (fun value digit => value * Float.ofNat 16 + Float.ofNat digit) (turns source)
    (Float.ofNat 0) 0
  if floats then do
    let fraction ← hexFraction source whole.1 whole.2
    if fraction.1.2 = 0 then malformed source extended start
    else exponent source 'p' 'P' extended start (fraction.1.1, fraction.2) (scale source fraction.1.1)
  else if whole.2 = 0 then malformed source extended start
  else pure (whole.1, false)

/-- Reads a numeral that begins at an offset, up to its suffix. -/
def figure (dialect : Dialect) (extended : Bool) (start : Nat) : Guarded (Float × Bool) := do
  let first ← peek source 0
  let second ← peek source 1
  if first == some '0' && (second == some 'x' || second == some 'X') then
    hexFigure source (dialect.has .hexFloats) extended start
  else decimalFigure source extended start

/-- Passes over the suffix of an imaginary number, and says whether there is one. -/
def imaginary (dialect : Dialect) : Guarded Bool := do
  let c ← peek source 0
  if dialect.has .imaginaryNumbers && (c == some 'i' || c == some 'I') then do
    advance source 1
    pure true
  else pure false

/-- Passes over the suffix of an integer, and says whether there is one. -/
def longInteger (dialect : Dialect) (extended : Bool) (start : Nat) : Guarded Bool :=
  if dialect.has .integerSuffixes then do
    let first ← peek source 0
    let second ← peek source 1
    let third ← peek source 2
    if first == some 'u' || first == some 'U' then
      if Numeral.isLong second && Numeral.isLong third then do
        advance source 3
        pure true
      else malformed source extended start
    else if Numeral.isLong first then
      if Numeral.isLong second then do
        advance source 2
        pure true
      else malformed source extended start
    else pure false
  else pure false

/-- Reads a numeral. -/
def numeral (dialect : Dialect) (extended : Bool) : Guarded Float := do
  let start ← here
  let figure ← figure source dialect extended start.offset
  let imaginary ← imaginary source dialect
  let integer ← longInteger source dialect extended start.offset
  if integer && (imaginary || figure.2) then malformed source extended start.offset
  else if ← atNumeral source extended then malformed source extended start.offset
  else pure figure.1

end Guarded

namespace Guarded

variable {α σ : Type} {source text rest : Text} {extended : Bool} {fuel start read count : Nat} {c : Char}

/-! ## Malformed numerals -/

/-- The reader sees whether a name goes on. -/
theorem leads_atNamePart (source rest : Text) (extended : Bool) :
    Leads source (atCharacter source extended (NameCharacter.isPart extended)) rest
      (rest.head?.any (NameCharacter.isPart extended)) rest := by
  refine leads_atCharacter (fun h => ?_) source rest
  subst h
  exact Text.ascii_isPart

/-- The reader sees whether a numeral runs on. -/
theorem leads_atNumeral (source rest : Text) (extended : Bool) :
    Leads source (atNumeral source extended) rest (rest.head?.any (Numeral.runsOn extended)) rest := by
  have hany : (rest.head?.any (NameCharacter.isPart extended) || rest.head?.map Text.front == some '.') =
      rest.head?.any (Numeral.runsOn extended) := by
    rw [Text.map_front_beq (by decide)]
    cases rest <;> rfl
  refine (leads_atNamePart source rest extended).bind (leads_peek.bind ?_)
  rw [hany]
  exact leads_pure _

/-- A malformed numeral is shown as far as it goes on, and blamed on its beginning. -/
theorem yields_malformed (hsmall : source.size + 1 < 2 ^ 32) (hstart : start + text.size = source.size)
    (hline : Text.OneLine (text.take read)) :
    Yields source text (malformed source extended start : Guarded α) (text.drop read)
      (.error (Numeral.malformed extended text read)) := by
  intro first place hfirst hplace
  obtain rfl := offset_of_marks hstart hfirst
  have hsize := hplace.offset_add
  have hturns : (text.drop read).length < turns source := lt_turns (by omega)
  obtain ⟨stop, hrun, hstop⟩ := leads_passOver (fun rest => leads_atNumeral source rest extended)
    (Numeral.isLineEnd_of_runsOn extended) hturns place hplace
  obtain ⟨whole, hwhole⟩ : ∃ whole, read + Text.countWhile (Numeral.runsOn extended) (text.drop read) = whole :=
    ⟨_, rfl⟩
  rw [← Text.drop_countWhile, List.drop_drop, hwhole] at hstop
  have hone : Text.OneLine (text.take whole) := by
    rw [← hwhole]
    exact hline.take_add (Text.oneLine_run (Numeral.isLineEnd_of_runsOn extended) _)
  have hparts := hfirst
  rw [← List.take_append_drop whole text] at hparts
  have hlineStart : stop.lineStart = first.lineStart := by rw [hstop.unique (hparts.over hone)]
  have hended : decide (source.bytes.length ≤ place.offset) = (text.drop read).isEmpty := by
    rw [Text.length_bytes, ← hsize]
    cases text.drop read with
    | nil => simp
    | cons c rest =>
      have hpos := c.utf8Size_pos
      rw [List.isEmpty_cons, decide_eq_false_iff_not, Text.size_cons]
      omega
  have herror := gives_errorAt hsmall hfirst hstop hlineStart .malformedNumber [text.take whole]
  rw [Numeral.malformed, hwhole]
  refine ⟨stop, (gives_here place).bind (hrun.bind ((gives_shown_between hparts hstop).bind (herror.bind ?_))), hstop⟩
  rw [hended]
  exact gives_blame _ stop

/-! ## Digits -/

/-- Digits go one after the other into what was read before them. -/
theorem leads_digits (step : σ → Nat → σ) {state : σ} (hfuel : rest.length < fuel)
    (hcount : count + rest.length < 2 ^ 32) :
    Leads source (digits source step fuel state count) rest
      ((rest.takeWhile Digit.isHex).foldl (fun state c => step state ((Digit.hex? c).getD 0)) state,
        count + (rest.takeWhile Digit.isHex).length)
      (rest.dropWhile Digit.isHex) := by
  induction fuel generalizing rest state count with
  | zero => cases hfuel
  | succ fuel ih =>
    refine leads_peek.bind ?_
    cases rest with
    | nil => exact leads_pure (state, count)
    | cons c rest =>
      rw [List.head?_cons, Option.map_some, Option.bind_some, Text.uniform_hex?.front]
      cases hdigit : Digit.hex? c with
      | none =>
        have hhex : ¬ Digit.isHex c = true := by rw [Digit.isHex, hdigit]; exact Bool.false_ne_true
        rw [List.takeWhile_cons_of_neg hhex, List.dropWhile_cons_of_neg hhex]
        exact leads_pure (state, count)
      | some digit =>
        have hhex : Digit.isHex c = true := by rw [Digit.isHex, hdigit]; rfl
        rw [List.takeWhile_cons_of_pos hhex, List.dropWhile_cons_of_pos hhex, List.foldl_cons, hdigit, Option.getD_some,
          List.length_cons, ← Nat.add_assoc, Nat.add_right_comm]
        rw [List.length_cons] at hfuel hcount
        refine (leads_word (by omega)).bind ((leads_advance_one (Text.isLineEnd_of_isHex c hhex)
          (Text.lt_of_hex? hdigit).1).bind (ih (by omega) (by omega)))

/-- A number that stops growing is the number that goes on, cut short at the end. -/
theorem saturate_step (number digit : Nat) :
    saturate (saturate (saturate number * 10) + digit) = saturate (number * 10 + digit) := by
  simp only [saturate]
  omega

/-- The digits of an exponent are read into a number that stops at its bound. -/
theorem leads_exponentDigits {number : Nat} (hfuel : rest.length < fuel) :
    Leads source (exponentDigits source fuel (saturate number)) rest
      (saturate ((rest.takeWhile Char.isDigit).foldl (fun number digit => number * 10 + Digit.value digit) number))
      (rest.dropWhile Char.isDigit) := by
  induction fuel generalizing rest number with
  | zero => cases hfuel
  | succ fuel ih =>
    refine leads_peek.bind ?_
    cases rest with
    | nil => exact leads_pure _
    | cons c rest =>
      rw [List.head?_cons, Option.map_some]
      dsimp only
      rw [Text.ascii_isDigit.uniform.front]
      cases hdigit : c.isDigit with
      | false =>
        have hno : ¬ c.isDigit = true := by rw [hdigit]; exact Bool.false_ne_true
        rw [if_neg Bool.false_ne_true, List.takeWhile_cons_of_neg hno, List.dropWhile_cons_of_neg hno]
        exact leads_pure _
      | true =>
        have hascii := Text.ascii_isDigit.lt hdigit
        rw [if_pos rfl, List.takeWhile_cons_of_pos hdigit, List.dropWhile_cons_of_pos hdigit, List.foldl_cons,
          Text.front_of_lt hascii]
        have hrest := @ih rest (number * 10 + Digit.value c) (Nat.lt_of_succ_lt_succ hfuel)
        rw [← saturate_step] at hrest
        exact (leads_minus (Text.toNat_of_isDigit hdigit).1).bind
          ((leads_advance_one (Text.isLineEnd_of_isDigit c hdigit) hascii).bind hrest)

/-! ## Exponents -/

/-- Behind a letter stands a sign or none, and then the digits. -/
theorem exponent?_of_letter {lower upper : Char} (hletter : (c == lower || c == upper) = true) (rest : Text) :
    ∃ lead negative, 0 < lead ∧ Numeral.exponent? lower upper (c :: rest) =
        some ⟨lead, negative, ((c :: rest).drop lead).takeWhile Char.isDigit⟩ ∧
      ∀ source, Leads source (sign source) rest negative ((c :: rest).drop lead) := by
  have hsigned {d : Char} {more : Text} (hd : (d == '-' || d == '+') = true) (source : Text) :
      Leads source (sign source) (d :: more) (d == '-') more := by
    have hascii : d.toNat < 0x80 ∧ Text.isLineEnd d = false := by
      rw [Bool.or_eq_true, beq_iff_eq, beq_iff_eq] at hd
      rcases hd with rfl | rfl <;> exact ⟨by decide, rfl⟩
    refine leads_peek.bind ?_
    rw [Text.map_front_beq (by decide), Text.map_front_beq (by decide), List.head?_cons, Option.some_beq_some,
      Option.some_beq_some, if_pos hd]
    exact (leads_advance_one hascii.2 hascii.1).bind (leads_pure _)
  unfold Numeral.exponent?
  dsimp only
  rw [if_pos hletter]
  split
  · next more => exact ⟨2, true, Nat.two_pos, rfl, hsigned rfl⟩
  · next more => exact ⟨2, false, Nat.two_pos, rfl, hsigned rfl⟩
  · next hminus hplus =>
    refine ⟨1, false, Nat.one_pos, rfl, fun source => leads_peek.bind ?_⟩
    have hnone : ¬ (rest.head? == some '-' || rest.head? == some '+') = true := by
      rw [Bool.or_eq_true, beq_iff_eq, beq_iff_eq]
      rintro (h | h)
      · obtain ⟨more, rfl⟩ := List.head?_eq_some_iff.mp h
        exact hminus more rfl
      · obtain ⟨more, rfl⟩ := List.head?_eq_some_iff.mp h
        exact hplus more rfl
    rw [Text.map_front_beq (by decide), Text.map_front_beq (by decide), if_neg hnone]
    exact leads_pure false

/-- There are no characters of a kind at the front exactly when the first is none. -/
theorem isEmpty_takeWhile_iff {p : Char → Bool} (rest : Text) :
    (rest.takeWhile p).isEmpty = true ↔ rest.head?.any p = false := by
  cases rest with
  | nil => simp
  | cons c rest => cases h : p c <;> simp [h]

/-- An exponent is read as its digits are, unless these are missing. -/
theorem yields_exponent {lower upper : Char} (hlower : lower.toNat < 0x80 ∧ Text.isLineEnd lower = false)
    (hupper : upper.toNat < 0x80 ∧ Text.isLineEnd upper = false) (hsmall : source.size + 1 < 2 ^ 32)
    (hstart : start + text.size = source.size) (hline : Text.OneLine (text.take count)) {without : α}
    {f : Bool → Guarded α} {found : Numeral.Exponent → α}
    (hf : ∀ (power : Numeral.Exponent) more, power.digits = more.takeWhile Char.isDigit →
      Leads source (f power.negative) more (found power) (more.dropWhile Char.isDigit)) :
    Yields source text (exponent source lower upper extended start without f) (text.drop count)
      ((Numeral.exponent? lower upper (text.drop count)).elim (.ok (without, count)) fun power =>
        if power.digits.isEmpty then .error (Numeral.malformed extended text (count + power.lead))
        else .ok (found power, count + power.lead + power.digits.length)) := by
  refine leads_peek.bind_yields ?_
  rw [Text.map_front_beq hlower.1, Text.map_front_beq hupper.1]
  cases hrest : text.drop count with
  | nil => exact yields_pure hrest without
  | cons c rest =>
    rw [List.head?_cons, Option.some_beq_some, Option.some_beq_some]
    by_cases hletter : (c == lower || c == upper) = true
    · rw [if_pos hletter]
      have hc := ascii_of_either hlower hupper hletter
      obtain ⟨lead, negative, hpos, hread, hsign⟩ := exponent?_of_letter hletter rest
      have hbehind : (c :: rest).drop lead = text.drop (count + lead) := by rw [← hrest, List.drop_drop]
      rw [hread, Option.elim_some]
      dsimp only
      refine (leads_advance_one hc.2 hc.1).bind_yields ((hsign source).bind_yields (leads_peek.bind_yields ?_))
      rw [Text.ascii_isDigit.uniform.any_front, hbehind]
      have hfound := hf ⟨lead, negative, (text.drop (count + lead)).takeWhile Char.isDigit⟩ _ rfl
      rw [← Text.drop_countWhile, List.drop_drop] at hfound
      by_cases hdigit : (text.drop (count + lead)).head?.any Char.isDigit = true
      · have hsome : ¬ ((text.drop (count + lead)).takeWhile Char.isDigit).isEmpty = true := by
          rw [isEmpty_takeWhile_iff]
          simpa using hdigit
        rw [if_pos hdigit, if_neg hsome]
        exact hfound.yields
      · have hnone : ((text.drop (count + lead)).takeWhile Char.isDigit).isEmpty = true := by
          rw [isEmpty_takeWhile_iff]
          simpa using hdigit
        rw [if_neg hdigit, if_pos hnone]
        refine yields_malformed hsmall hstart (hline.take_add ?_)
        rw [hrest]
        exact (Numeral.oneLine_exponent hlower.2 hupper.2 hread).of_take_add
    · have hnone : Numeral.exponent? lower upper (c :: rest) = none :=
        Numeral.exponent?_eq_none fun d hd => by
          obtain rfl := Option.some.inj hd
          simpa using hletter
      rw [if_neg hletter, hnone]
      exact yields_pure hrest without

/-! ## Figures -/

/-- A fraction begins with a dot, and without one there is none. -/
theorem fraction?_cases (digit : Char → Bool) (rest : Text) :
    (rest.head? == some '.') = false ∧ Numeral.fraction? digit rest = none ∨
      ∃ more, rest = '.' :: more ∧ Numeral.fraction? digit rest = some (more.takeWhile digit) := by
  unfold Numeral.fraction?
  split
  · next more => exact .inr ⟨more, rfl, rfl⟩
  · next hdot =>
    refine .inl ⟨beq_false_of_ne fun h => ?_, rfl⟩
    obtain ⟨more, rfl⟩ := List.head?_eq_some_iff.mp h
    exact hdot more rfl

/-- Behind a fraction are the digits left over. -/
theorem drop_fractionLength (digit : Char → Bool) (more : Text) :
    ('.' :: more).drop (Numeral.fractionLength (some (more.takeWhile digit))) = more.dropWhile digit :=
  Text.drop_countWhile digit more

/-- The fraction of a decimal numeral is read over. -/
theorem leads_decimalFraction (source rest : Text) : Leads source (decimalFraction source) rest
    (Numeral.fraction? Char.isDigit rest).isSome
    (rest.drop (Numeral.fractionLength (Numeral.fraction? Char.isDigit rest))) := by
  refine leads_peek.bind ?_
  rw [Text.map_front_beq (by decide)]
  obtain ⟨hdot, hnone⟩ | ⟨more, rfl, hsome⟩ := fraction?_cases Char.isDigit rest
  · rw [hdot, hnone, if_neg Bool.false_ne_true]
    exact leads_pure false
  · rw [hsome, drop_fractionLength, List.head?_cons, if_pos (beq_self_eq_true _)]
    exact (leads_advance_one rfl (by decide)).bind
      ((leads_skip Text.ascii_isDigit.uniform Text.isLineEnd_of_isDigit).bind (leads_pure true))

/-- What is read of a figure. -/
def figured (extended : Bool) (text : Text) : Numeral.Result → Except Fault ((Float × Bool) × Nat)
  | .ok figure => .ok ((figure.value, figure.fractional), figure.length)
  | .error read => .error (Numeral.malformed extended text read)

/-- What is read as a decimal numeral denotes a float. -/
theorem float?_of_read {figure : Numeral.Figure} (hstarts : Numeral.Starts text)
    (h : Numeral.readDecimal text = .ok figure) :
    Numeral.float? (text.take figure.length) = some figure.value := by
  obtain ⟨value, fractional, length⟩ := figure
  obtain ⟨form, rest, rfl, rfl, hform⟩ := Numeral.isFigure_of_scan ((Numeral.readDecimal_iff hstarts).mp ⟨value, h⟩)
  have hscan := @Numeral.IsFigure.scan_eq _ _ _ _ [] _ _ hform Numeral.apart_decimal nofun
  have hread := @Numeral.readDecimal_apart form rest [] nofun _ h (Nat.le_refl _)
  rw [List.append_nil] at hscan hread
  rw [List.take_left, Numeral.float?, hscan, hread]
  exact if_pos (beq_self_eq_true _)

/-- The floating number behind a decimal numeral is what the text says. -/
theorem yields_floatBehind {figure : Numeral.Figure} (hstart : start + text.size = source.size)
    (hstarts : Numeral.Starts text) (h : Numeral.readDecimal text = .ok figure) (extended : Bool) :
    Yields source text (floatBehind source extended start figure.fractional) (text.drop figure.length)
      (figured extended text (.ok figure)) := by
  have hfloat := float?_of_read hstarts h
  intro first place hfirst hplace
  obtain rfl := offset_of_marks hstart hfirst
  rw [← List.take_append_drop figure.length text] at hfirst
  refine ⟨place, (gives_shown_between hfirst hplace).bind ?_, hplace⟩
  rw [hfloat]
  exact gives_pure _ place

/-- A decimal figure is read as the text says. -/
theorem yields_decimalFigure (hsmall : source.size + 1 < 2 ^ 32) (hstart : start + text.size = source.size)
    (hstarts : Numeral.Starts text) :
    Yields source text (decimalFigure source extended start) text (figured extended text (Numeral.readDecimal text)) := by
  obtain ⟨whole, hwhole⟩ : ∃ whole, text.takeWhile Char.isDigit = whole := ⟨_, rfl⟩
  obtain ⟨fraction, hfraction⟩ :
    ∃ fraction, Numeral.fraction? Char.isDigit (text.drop whole.length) = fraction := ⟨_, rfl⟩
  have hline : Text.OneLine (text.take (whole.length + Numeral.fractionLength fraction)) := by
    rw [← hwhole, ← hfraction, ← hwhole]
    exact (Text.oneLine_run Text.isLineEnd_of_isDigit text).take_add
      (Numeral.oneLine_fraction Text.isLineEnd_of_isDigit _)
  have hskip : Leads source (skip source Char.isDigit) text () (text.drop whole.length) := by
    rw [← hwhole, show text.drop (text.takeWhile Char.isDigit).length = _ from Text.drop_countWhile _ text]
    exact leads_skip Text.ascii_isDigit.uniform Text.isLineEnd_of_isDigit
  have hdotted := leads_decimalFraction source (text.drop whole.length)
  rw [hfraction, List.drop_drop] at hdotted
  have hpower := @yields_exponent Bool source text extended start (whole.length + Numeral.fractionLength fraction) 'e' 'E'
    ⟨by decide, rfl⟩ ⟨by decide, rfl⟩ hsmall hstart hline false (fun _ => skip source Char.isDigit >>= fun _ => pure true)
    (fun _ => true) fun power more _ =>
      (leads_skip Text.ascii_isDigit.uniform Text.isLineEnd_of_isDigit).bind (leads_pure true)
  have hfloat := @yields_floatBehind source text start
  obtain ⟨found, hfound⟩ : ∃ found, Numeral.readDecimal text = found := ⟨_, rfl⟩
  have hread := hfound
  rw [Numeral.readDecimal, hwhole, hfraction] at hread
  rw [hfound]
  refine hskip.bind_yields (hdotted.bind_yields ?_)
  cases hexponent : Numeral.exponent? 'e' 'E' (text.drop (whole.length + Numeral.fractionLength fraction)) with
  | none =>
    rw [hexponent] at hpower hread
    subst hread
    refine hpower.bind ?_
    rw [Bool.or_false]
    exact hfloat hstart hstarts hfound extended
  | some power =>
    rw [hexponent, Option.elim_some] at hpower
    rw [hexponent] at hread
    dsimp only at hread
    by_cases hempty : power.digits.isEmpty = true
    · rw [if_pos hempty] at hpower hread
      subst hread
      exact hpower.ends
    · rw [if_neg hempty] at hpower hread
      subst hread
      refine hpower.bind ?_
      rw [Bool.or_true]
      exact hfloat hstart hstarts hfound extended

/-- The digits of a fraction are added up from the left, each with a scale of its own. -/
theorem foldl_fraction (digits : Text) (value scale : Float) :
    (digits.foldl (fun state c => (state.1 + Float.ofNat ((Digit.hex? c).getD 0) * state.2, state.2 / Float.ofNat 16))
      (value, scale)).1 = Numeral.addFraction value scale digits := by
  induction digits generalizing value scale with
  | nil => rfl
  | cons c digits ih => exact ih _ _

/-- The fraction of a hexadecimal numeral is added to its value, and its digits are counted. -/
theorem leads_hexFraction {value : Float} (hcount : count + rest.length < 2 ^ 32) :
    Leads source (hexFraction source value count) rest
      ((Numeral.addFraction value (Float.ofNat 1 / Float.ofNat 16) ((Numeral.fraction? Digit.isHex rest).getD []),
        count + ((Numeral.fraction? Digit.isHex rest).getD []).length), (Numeral.fraction? Digit.isHex rest).isSome)
      (rest.drop (Numeral.fractionLength (Numeral.fraction? Digit.isHex rest))) := by
  refine leads_peek.bind ?_
  rw [Text.map_front_beq (by decide)]
  obtain ⟨hdot, hnone⟩ | ⟨more, rfl, hsome⟩ := fraction?_cases Digit.isHex rest
  · rw [hdot, hnone, if_neg Bool.false_ne_true]
    exact leads_pure _
  · rw [hsome, drop_fractionLength, List.head?_cons, if_pos (beq_self_eq_true _), Option.getD_some, ← foldl_fraction]
    rw [List.length_cons] at hcount
    exact (leads_advance_one rfl (by decide)).bind (leads_of_size fun hsize =>
      (leads_digits _ (lt_turns hsize) (by omega)).bind (leads_pure _))

/-- From the largest exponent on, and long before it, powers of two are infinite. -/
theorem powerOfTwo_saturate (number : Nat) : Numeral.powerOfTwo (saturate number) = Numeral.powerOfTwo number := by
  rw [saturate]
  rcases Nat.lt_or_ge number (2 ^ 31) with hlt | hge
  · rw [Nat.min_eq_left (by omega)]
  · rw [Nat.min_eq_right (by omega), Numeral.powerOfTwo, Numeral.powerOfTwo, if_neg (by decide), if_neg (by omega)]

/-- To scale by an exponent that stops at its bound is to scale by the exponent. -/
theorem scaleBy_saturate (value : Float) (negative : Bool) (number : Nat) :
    Numeral.scaleBy value negative (saturate number) = Numeral.scaleBy value negative number := by
  rw [Numeral.scaleBy, Numeral.scaleBy, powerOfTwo_saturate]

/-- A number within 32 bits and a sign fits a signed word. -/
theorem leads_signedWord {number : Int} (h : -0x80000000 ≤ number ∧ number < 0x80000000) :
    Leads source (signedWord number) rest number rest := by
  rw [signedWord, if_pos h]
  exact leads_pure number

/-- The exponent of a hexadecimal numeral scales its value. -/
theorem leads_scale (value : Float) (negative : Bool) :
    Leads source (scale source value negative) rest
      (Numeral.scaleBy value negative (Digit.decimal (rest.takeWhile Char.isDigit)), true)
      (rest.dropWhile Char.isDigit) := by
  refine leads_of_size fun hsize => ?_
  have hdigits : Leads source (exponentDigits source (turns source) 0) rest _ _ :=
    @leads_exponentDigits source rest (turns source) 0 (lt_turns hsize)
  refine hdigits.bind ?_
  rw [← Digit.decimal, ← scaleBy_saturate]
  generalize hnumber : saturate (Digit.decimal (rest.takeWhile Char.isDigit)) = number
  have hlt : number < 2 ^ 31 := by
    rw [← hnumber, saturate]
    omega
  have habs : (if negative then -(number : Int) else number).natAbs = number := by
    split <;> omega
  have hword : -0x80000000 ≤ (if negative then -(number : Int) else number) ∧
      (if negative then -(number : Int) else number) < 0x80000000 := by
    split <;> omega
  refine (leads_signedWord hword).bind ?_
  rw [habs]
  exact leads_pure _

/-- Behind its digits and its fraction a hexadecimal numeral is scaled by its exponent, unless it has no digit. -/
theorem yields_hexPower {whole : Text} {fraction : Option Text} {value : Float} (hsmall : source.size + 1 < 2 ^ 32)
    (hstart : start + text.size = source.size) (hline : Text.OneLine (text.take count))
    (hvalue : value = Numeral.addFraction (Numeral.addWhole (Float.ofNat 0) whole) (Float.ofNat 1 / Float.ofNat 16)
      (fraction.getD []))
    (hcount : whole.length + 2 + Numeral.fractionLength fraction = count) :
    Yields source text
      (if whole.length + (fraction.getD []).length = 0 then malformed source extended start
        else exponent source 'p' 'P' extended start (value, fraction.isSome) (scale source value))
      (text.drop count)
      (figured extended text (Numeral.Gathered.hexadecimal
        ⟨2, whole, fraction, Numeral.exponent? 'p' 'P' (text.drop count)⟩)) := by
  subst hvalue hcount
  rw [Numeral.Gathered.hexadecimal, Numeral.Gathered.mantissa, Numeral.Gathered.digits]
  have hnone : whole.length + (fraction.getD []).length = 0 ↔ (whole ++ fraction.getD []).isEmpty = true := by
    rw [List.isEmpty_iff_length_eq_zero, List.length_append]
  by_cases hempty : (whole ++ fraction.getD []).isEmpty = true
  · rw [if_pos (hnone.mpr hempty), if_pos hempty]
    exact yields_malformed hsmall hstart hline
  rw [if_neg (mt hnone.mp hempty), if_neg hempty]
  dsimp only
  generalize Numeral.addFraction _ _ _ = value
  have hpower := @yields_exponent (Float × Bool) source text extended start _ 'p' 'P' ⟨by decide, rfl⟩
    ⟨by decide, rfl⟩ hsmall hstart hline (value, fraction.isSome) _
    (fun power => (Numeral.scaleBy value power.negative (Digit.decimal power.digits), true)) fun power more hdigits => by
      rw [hdigits]
      exact leads_scale value power.negative
  cases hread : Numeral.exponent? 'p' 'P' (text.drop (whole.length + 2 + Numeral.fractionLength fraction)) with
  | none =>
    rw [hread] at hpower
    exact hpower
  | some power =>
    rw [hread, Option.elim_some] at hpower
    dsimp only
    by_cases hempty : power.digits.isEmpty = true
    · rw [if_pos hempty] at hpower ⊢
      exact hpower
    · rw [if_neg hempty] at hpower ⊢
      exact hpower

/-- A hexadecimal figure is read as the text says. -/
theorem yields_hexFigure {floats : Bool} (hsmall : source.size + 1 < 2 ^ 32) (hstart : start + text.size = source.size)
    (h : Numeral.isHexadecimal text = true) :
    Yields source text (hexFigure source floats extended start) text
      (figured extended text (Numeral.readHexadecimal floats text)) := by
  obtain ⟨c, rest, rfl, hc⟩ := Numeral.isHexadecimal_iff.mp h
  have hletter : (c == 'x' || c == 'X') = true := by rwa [Bool.or_eq_true, beq_iff_eq, beq_iff_eq]
  have hmarks : ∀ d ∈ ['0', c], d.toNat < 0x80 ∧ Text.isLineEnd d = false :=
    List.forall_mem_cons.mpr ⟨⟨by decide, rfl⟩,
      List.forall_mem_singleton.mpr (ascii_of_either ⟨by decide, rfl⟩ ⟨by decide, rfl⟩ hletter)⟩
  have hsize : Text.size rest ≤ source.size := by
    rw [Text.size_cons, Text.size_cons] at hstart
    omega
  have hlength := Text.length_le_size rest
  have hwhole : rest.dropWhile Digit.isHex = ('0' :: c :: rest).drop ((rest.takeWhile Digit.isHex).length + 2) :=
    (Text.drop_countWhile _ rest).symm
  have hrun := (List.takeWhile_prefix (l := rest) Digit.isHex).length_le
  have hline : Text.OneLine (('0' :: c :: rest).take ((rest.takeWhile Digit.isHex).length + 2)) := by
    rw [Nat.add_comm]
    exact Text.OneLine.take_add (a := 2) (fun d hd => (hmarks d hd).2) (Text.oneLine_run Text.isLineEnd_of_isHex rest)
  have hdigits := @leads_digits Float source rest (turns source) 0
    (fun value digit => value * Float.ofNat 16 + Float.ofNat digit) (Float.ofNat 0) (lt_turns hsize) (by omega)
  rw [hwhole, Nat.zero_add] at hdigits
  refine Leads.bind_yields (leads_advance_ascii (a := ['0', c]) hmarks rfl) (hdigits.bind_yields ?_)
  rw [Numeral.readHexadecimal_eq, Numeral.gather, show ('0' :: c :: rest).drop 2 = rest from rfl]
  dsimp only
  generalize rest.takeWhile Digit.isHex = whole at *
  cases floats with
  | false =>
    rw [if_neg Bool.false_ne_true, if_neg Bool.false_ne_true]
    cases whole with
    | nil => exact yields_malformed hsmall hstart hline
    | cons d whole => exact yields_pure (by rfl) _
  | true =>
    rw [if_pos rfl, if_pos rfl, if_pos rfl]
    have hread := @leads_hexFraction source (('0' :: c :: rest).drop (whole.length + 2)) whole.length
      (Numeral.addWhole (Float.ofNat 0) whole) (by
        rw [List.length_drop, List.length_cons, List.length_cons]
        omega)
    rw [List.drop_drop] at hread
    exact hread.bind_yields (yields_hexPower hsmall hstart
      (hline.take_add (Numeral.oneLine_fraction Text.isLineEnd_of_isHex _)) rfl rfl)

/-- Two bytes tell whether a numeral is hexadecimal. -/
theorem isHexadecimal_of_latin (text : Text) :
    (text.head?.map Text.front == some '0' && (text.latin[1]? == some 'x' || text.latin[1]? == some 'X')) =
      Numeral.isHexadecimal text := by
  rw [Text.map_front_beq (by decide)]
  cases text with
  | nil => rfl
  | cons c rest =>
    by_cases hzero : c = '0'
    · subst hzero
      rw [Text.second_latin (by decide), Text.map_front_beq (by decide), Text.map_front_beq (by decide)]
      cases rest <;> rfl
    · have hno : Numeral.isHexadecimal (c :: rest) = false := by
        rw [← Bool.not_eq_true, Numeral.isHexadecimal_iff]
        rintro ⟨mark, more, heq, -⟩
        exact hzero (List.cons.inj heq).1
      rw [hno, List.head?_cons, Option.some_beq_some, beq_eq_false_iff_ne.mpr hzero, Bool.false_and]

/-- A figure is read as the text says. -/
theorem yields_figure (dialect : Dialect) (hsmall : source.size + 1 < 2 ^ 32) (hstart : start + text.size = source.size)
    (hstarts : Numeral.Starts text) :
    Yields source text (figure source dialect extended start) text
      (figured extended text (Numeral.readFigure dialect text)) := by
  refine leads_peek.bind_yields ((leads_peek_any 1).bind_yields ?_)
  rw [isHexadecimal_of_latin, Numeral.readFigure]
  by_cases hhex : Numeral.isHexadecimal text = true
  · rw [if_pos hhex, if_pos hhex]
    exact yields_hexFigure hsmall hstart hhex
  · rw [if_neg hhex, if_neg hhex]
    exact yields_decimalFigure hsmall hstart hstarts

/-! ## Suffixes -/

/-- The imaginary suffix is read over. -/
theorem leads_imaginary (source rest : Text) (dialect : Dialect) : Leads source (imaginary source dialect) rest
    (Numeral.imaginarySuffix dialect rest != 0) (rest.drop (Numeral.imaginarySuffix dialect rest)) := by
  refine leads_peek.bind ?_
  rw [Text.map_front_beq (by decide), Text.map_front_beq (by decide)]
  cases rest with
  | nil =>
    rw [List.head?_nil, show ((none : Option Char) == some 'i' || none == some 'I') = false from rfl, Bool.and_false,
      if_neg Bool.false_ne_true]
    exact leads_pure false
  | cons c rest =>
    rw [List.head?_cons, Option.some_beq_some, Option.some_beq_some, Numeral.imaginarySuffix]
    by_cases hsuffix : (dialect.has .imaginaryNumbers && (c == 'i' || c == 'I')) = true
    · have hc := ascii_of_either ⟨by decide, rfl⟩ ⟨by decide, rfl⟩ (Bool.and_eq_true_iff.mp hsuffix).2
      rw [if_pos hsuffix, if_pos hsuffix]
      exact (leads_advance_one hc.2 hc.1).bind (leads_pure true)
    · rw [if_neg hsuffix, if_neg hsuffix]
      exact leads_pure false

/-- The letter of a long integer is told by its first byte. -/
theorem isLong_map_front (first : Option Char) : Numeral.isLong (first.map Text.front) = Numeral.isLong first := by
  rw [Numeral.isLong, Numeral.isLong, Text.map_front_beq (by decide), Text.map_front_beq (by decide)]

/-- A letter of the suffix of an integer is ASCII, and ends no line. -/
theorem exists_of_isLong {rest : Text} (h : Numeral.isLong rest.head? = true) :
    ∃ c more, rest = c :: more ∧ c.toNat < 0x80 ∧ Text.isLineEnd c = false := by
  cases rest with
  | nil => cases h
  | cons c more =>
    rw [Numeral.isLong, List.head?_cons, Option.some_beq_some, Option.some_beq_some] at h
    exact ⟨c, more, rfl, ascii_of_either ⟨by decide, rfl⟩ ⟨by decide, rfl⟩ h⟩

/-- The suffix of an integer is read as the text says. -/
theorem yields_longInteger (dialect : Dialect) (hsmall : source.size + 1 < 2 ^ 32)
    (hstart : start + text.size = source.size) (hline : Text.OneLine (text.take count)) :
    Yields source text (longInteger source dialect extended start) (text.drop count)
      ((Numeral.integerSuffix dialect (text.drop count)).elim (.error (Numeral.malformed extended text count))
        fun integer => .ok (integer != 0, count + integer)) := by
  have hnone : Yields source text (pure false) (text.drop count) (.ok (false, count + 0)) := yields_pure rfl false
  have hmalformed : Yields source text (malformed source extended start : Guarded Bool) (text.drop count)
      (.error (Numeral.malformed extended text count)) := yields_malformed hsmall hstart hline
  rw [longInteger, Numeral.integerSuffix]
  by_cases hhas : dialect.has .integerSuffixes = true
  swap
  · rw [if_neg hhas, if_neg hhas]
    exact hnone
  rw [if_pos hhas, if_pos hhas]
  refine leads_peek.bind_yields ((leads_peek_any 1).bind_yields ((leads_peek_any 2).bind_yields ?_))
  rw [Text.map_front_beq (by decide), Text.map_front_beq (by decide), isLong_map_front]
  have hdrop (extra : Nat) : text.drop (count + extra) = (text.drop count).drop extra := List.drop_drop.symm
  generalize text.drop count = rest at *
  dsimp only
  cases rest with
  | nil => exact hnone
  | cons c rest =>
    rw [List.head?_cons, List.getElem?_cons_zero, List.getElem?_cons_succ, List.getElem?_cons_succ,
      ← List.head?_eq_getElem?, Option.some_beq_some, Option.some_beq_some]
    by_cases hunsigned : (c == 'u' || c == 'U') = true
    · obtain ⟨hc, hline⟩ := ascii_of_either ⟨by decide, rfl⟩ ⟨by decide, rfl⟩ hunsigned
      rw [if_pos hunsigned, if_pos hunsigned, Text.second_latin hc, isLong_map_front]
      by_cases hsecond : Numeral.isLong rest.head? = true
      · obtain ⟨d, more, rfl, hd, hline'⟩ := exists_of_isLong hsecond
        rw [Text.third_latin hc hd, isLong_map_front, hsecond, List.getElem?_cons_succ, ← List.head?_eq_getElem?,
          Bool.true_and]
        by_cases hthird : Numeral.isLong more.head? = true
        · obtain ⟨e, behind, rfl, he, hline''⟩ := exists_of_isLong hthird
          have hletters : ∀ letter ∈ [c, d, e], letter.toNat < 0x80 ∧ Text.isLineEnd letter = false :=
            List.forall_mem_cons.mpr ⟨⟨hc, hline⟩,
              List.forall_mem_cons.mpr ⟨⟨hd, hline'⟩, List.forall_mem_singleton.mpr ⟨he, hline''⟩⟩⟩
          rw [if_pos hthird, if_pos hthird]
          exact (leads_advance_ascii (a := [c, d, e]) hletters rfl).bind_yields (yields_pure (hdrop 3) true)
        · rw [if_neg hthird, if_neg hthird]
          exact hmalformed
      · rw [Bool.not_eq_true] at hsecond
        rw [hsecond, Bool.false_and, Bool.false_and, if_neg Bool.false_ne_true, if_neg Bool.false_ne_true]
        exact hmalformed
    rw [if_neg hunsigned, if_neg hunsigned]
    by_cases hfirst : Numeral.isLong (some c) = true
    · obtain ⟨d, more, heq, hc, hline⟩ := @exists_of_isLong (c :: rest) hfirst
      obtain ⟨rfl, rfl⟩ := List.cons.inj heq
      rw [if_pos hfirst, if_pos hfirst, Text.second_latin hc, isLong_map_front]
      by_cases hsecond : Numeral.isLong rest.head? = true
      · obtain ⟨d, more, rfl, hd, hline'⟩ := exists_of_isLong hsecond
        have hletters : ∀ letter ∈ [c, d], letter.toNat < 0x80 ∧ Text.isLineEnd letter = false :=
          List.forall_mem_cons.mpr ⟨⟨hc, hline⟩, List.forall_mem_singleton.mpr ⟨hd, hline'⟩⟩
        rw [if_pos hsecond, if_pos hsecond]
        exact (leads_advance_ascii (a := [c, d]) hletters rfl).bind_yields (yields_pure (hdrop 2) true)
      · rw [if_neg hsecond, if_neg hsecond]
        exact hmalformed
    · rw [if_neg hfirst, if_neg hfirst]
      exact hnone

/-! ## Numerals -/

/-- A numeral is its figure and its suffixes. -/
theorem read_of_figure {dialect : Dialect} {figure : Numeral.Figure} (h : Numeral.readFigure dialect text = .ok figure)
    (hcount : figure.length + Numeral.imaginarySuffix dialect (text.drop figure.length) = count) :
    Numeral.read dialect extended text =
      (Numeral.integerSuffix dialect (text.drop count)).elim (.error (Numeral.malformed extended text count)) fun integer =>
        if integer != 0 && (Numeral.imaginarySuffix dialect (text.drop figure.length) != 0 || figure.fractional) then
          .error (Numeral.malformed extended text (count + integer))
        else if (text.drop (count + integer)).head?.any (Numeral.runsOn extended) then
          .error (Numeral.malformed extended text (count + integer))
        else .ok (figure.value, count + integer) := by
  simp only [Numeral.read, Numeral.recognise, h, hcount, bind, Except.bind]
  cases Numeral.integerSuffix dialect (text.drop count) with
  | none => rfl
  | some integer =>
    dsimp only [Option.elim_some]
    split
    · rfl
    · split <;> rfl

/-- A numeral is read as by a reader of characters. -/
theorem yields_numeral (dialect : Dialect) (extended : Bool) (hsmall : source.size + 1 < 2 ^ 32)
    (hstarts : Numeral.Starts text) :
    Yields source text (numeral source dialect extended) text (Numeral.read dialect extended text) := by
  refine yields_from fun first hstart => ?_
  have hfigure := @yields_figure source text extended _ dialect hsmall hstart hstarts
  have hmalformed {count : Nat} (hline : Text.OneLine (text.take count)) :
      Yields source text (malformed source extended first.offset : Guarded Float) _ _ :=
    yields_malformed hsmall hstart hline
  have hone := Numeral.oneLine_readFigure dialect text
  cases hread : Numeral.readFigure dialect text with
  | error read =>
    rw [hread] at hfigure
    rw [Numeral.read, Numeral.recognise_of_error hread]
    exact hfigure.ends
  | ok figure =>
    rw [hread, Numeral.Result.reach] at hone
    rw [hread] at hfigure
    obtain ⟨count, hcount⟩ : ∃ count, figure.length + Numeral.imaginarySuffix dialect (text.drop figure.length) = count :=
      ⟨_, rfl⟩
    have hline := hone.take_add (Numeral.oneLine_imaginarySuffix dialect (text.drop figure.length))
    rw [hcount] at hline
    have hinteger := @yields_longInteger source text extended first.offset count dialect hsmall hstart hline
    rw [read_of_figure hread hcount]
    refine hfigure.bind ((leads_imaginary source _ dialect).bind_yields ?_)
    rw [List.drop_drop, hcount]
    cases hsuffix : Numeral.integerSuffix dialect (text.drop count) with
    | none =>
      rw [hsuffix] at hinteger
      exact hinteger.ends
    | some integer =>
      rw [hsuffix] at hinteger
      have hline' := hline.take_add (Numeral.oneLine_integerSuffix hsuffix)
      rw [Option.elim_some]
      refine hinteger.bind ?_
      by_cases hclash : (integer != 0 && (Numeral.imaginarySuffix dialect (text.drop figure.length) != 0 ||
        figure.fractional)) = true
      · rw [if_pos hclash, if_pos hclash]
        exact hmalformed hline'
      rw [if_neg hclash, if_neg hclash]
      refine (leads_atNumeral source _ extended).bind_yields ?_
      by_cases hgoes : (text.drop (count + integer)).head?.any (Numeral.runsOn extended) = true
      · rw [if_pos hgoes, if_pos hgoes]
        exact hmalformed hline'
      · rw [if_neg hgoes, if_neg hgoes]
        exact yields_pure rfl figure.value

end Guarded

end LuaSyntax
