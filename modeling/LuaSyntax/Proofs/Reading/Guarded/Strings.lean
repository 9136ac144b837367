import LuaSyntax.Proofs.Reading.Forms.LongBrackets
import LuaSyntax.Proofs.Reading.Guarded.Cursor
import LuaSyntax.Proofs.Reading.Tiling
import LuaSyntax.Token.Escape

/-!
# Guarded reading of strings

An escape is read behind its backslash, by the byte that comes first. Its digits, braces and blanks are all bytes of
their own; only where an unknown escape stands for the character behind the backslash, or an error quotes what it came
upon, a longer character is met, and then it is taken as a whole.

A quoted string is read by its bytes up to the next one that means something: its quote, a line end or a backslash.
None of these is a byte of a longer character, so what is between two of them is a row of whole characters, and is
taken out of the source in one piece.
-/

namespace LuaSyntax

namespace Guarded

variable {α : Type} (source : Text)

/-- Stops with an error that quotes the source from an offset on. -/
def wrong (start ahead : Nat) (message : Message) (before : List Text) : Guarded α := do
  let text ← shown source start ahead
  fail source message (before ++ [text])

/-- Passes over blanks and line breaks. -/
def blanks : Nat → Guarded Unit
  | 0 => undefined
  | turns + 1 => do
    match ← peek source 0 with
    | none => pure ()
    | some c =>
      if Text.isBlank c then do
        advance source 1
        blanks turns
      else do
        if ← breakLine source then blanks turns else pure ()

/-- Reads at most three decimal digits, the first of which is at an offset, behind a value. -/
def decimal (start : Nat) : Nat → Nat → Guarded Nat
  | 0, _ => undefined
  | turns + 1, value => do
    let place ← here
    let count ← minus place.offset start
    if count < 3 then do
      match ← peek source 0 with
      | none => pure value
      | some c =>
        if c.isDigit then do
          let digit ← minus c.toNat '0'.toNat
          let value ← word (value * 10 + digit)
          advance source 1
          decimal start turns value
        else pure value
    else pure value

/-- Stops with the error that two hexadecimal digits are missing in an escape that begins at an offset. -/
def digitsMissing (start : Nat) : Guarded α := do
  let text ← shown source start 2
  let place ← here
  let error ← errorAt source place.offset .hexDigitExpected [text]
  blame { error with endOfInput := source.bytes.length < place.offset + 2 }

/-- Reads two hexadecimal digits behind the letter of an escape that begins at an offset. -/
def hexEscape (start : Nat) : Guarded (List UInt8) := do
  advance source 1
  let high ← peek source 0
  let low ← peek source 1
  match high.bind Digit.hex?, low.bind Digit.hex? with
  | some high, some low => do
    advance source 2
    let value ← word (high * 16 + low)
    pure [UInt8.ofNat value]
  | _, _ => digitsMissing source start

/-- Reads hexadecimal digits behind a value, as long as this stays in Unicode. -/
def codePoint (start : Nat) : Nat → Nat → Guarded Nat
  | 0, _ => undefined
  | turns + 1, value => do
    match (← peek source 0).bind Digit.hex? with
    | none => pure value
    | some digit => do
      let value ← word (value * 16 + digit)
      advance source 1
      if 0x10FFFF < value then wrong source start 0 .codePointTooLarge [] else codePoint start turns value

/-- Reads a code point in braces behind the letter of an escape that begins at an offset. -/
def codePointEscape (start : Nat) : Guarded (List UInt8) := do
  advance source 1
  if (← peek source 0) != some '\x7b' then wrong source start 1 .braceExpected [['\x7b']]
  else do
    advance source 1
    if ((← peek source 0).bind Digit.hex?).isNone then wrong source start 1 .hexDigitExpected []
    else do
      let value ← codePoint source start (turns source) 0
      if (← peek source 0) != some '\x7d' then wrong source start 1 .braceExpected [['\x7d']]
      else do
        advance source 1
        pure (Utf8.encode value)

/-- Reads an escape behind its backslash, in a string that begins at an offset. -/
def escape (dialect : Dialect) (string : Nat) : Guarded (List UInt8) := do
  let first ← here
  let start ← minus first.offset 1
  match ← peek source 0 with
  | none => wrong source string 0 .unfinishedString []
  | some c =>
    match Escape.simple? c with
    | some byte => do
      advance source 1
      pure [byte]
    | none =>
      if Text.isLineEnd c then do
        let _ ← breakLine source
        pure [0x0A]
      else if c.isDigit then do
        let value ← decimal source first.offset 4 0
        if 255 < value then wrong source start 0 .decimalEscapeTooLarge [] else pure [UInt8.ofNat value]
      else if c == 'z' && dialect.has .skipBlankEscape then do
        advance source 1
        blanks source (turns source)
        pure []
      else if c == 'x' && dialect.has .hexEscapes then hexEscape source start
      else if c == 'u' && dialect.has .unicodeEscapes then codePointEscape source start
      else if dialect.has .strictEscapes then wrong source start 1 .invalidEscape []
      else do
        let length := (charFrom? source first.offset).elim 1 Char.utf8Size
        let bytes ← given (source.piece? first.offset (first.offset + length))
        advance source length
        pure bytes

/-- Whether a character is plain in a string: no quote of it, no line end and no backslash. -/
def isPlain (quote c : Char) : Bool := !(c == quote || Text.isLineEnd c || c == '\\')

/-- Reads the content of a string that begins at an offset, up to its closing quote, behind the bytes found. -/
def stringBody (dialect : Dialect) (quote : Char) (string : Nat) : Nat → List UInt8 → Guarded (List UInt8)
  | 0, _ => undefined
  | turns + 1, found => do
    let chunk ← here
    skip source (isPlain quote)
    let place ← here
    match ← peek source 0 with
    | none => wrong source string 0 .unfinishedString []
    | some c =>
      if c == quote then do
        let bytes ← given (source.piece? chunk.offset place.offset)
        advance source 1
        pure (found ++ bytes)
      else if Text.isLineEnd c then wrong source string 0 .unfinishedString []
      else do
        let bytes ← given (source.piece? chunk.offset place.offset)
        advance source 1
        let named ← escape source dialect string
        stringBody dialect quote string turns (found ++ bytes ++ named)

/-- Reads a string that begins with a quote. -/
def string (dialect : Dialect) (quote : Char) : Guarded Text := do
  let start ← here
  advance source 1
  let bytes ← stringBody source dialect quote start.offset (turns source) []
  pure (Utf8.readable bytes)

end Guarded

namespace Escape

variable {dialect : Dialect} {text rest : Text} {c : Char} {bytes : List UInt8} {length : Nat}

/-! ## Lengths -/

/-- A code point that is read covers some characters of the text. -/
theorem length_le_of_readCodePoint (h : readCodePoint text = .ok (bytes, length)) : 0 < length ∧ length ≤ text.length := by
  rw [readCodePoint] at h
  split at h
  · cases h
  · split at h
    · cases h
    · split at h
      · cases h
      · next count _ =>
        split at h
        · cases h
        · next hclose =>
          cases h
          refine ⟨Nat.succ_pos _, ?_⟩
          by_contra hbeyond
          rw [List.drop_eq_nil_of_le (by omega)] at hclose
          exact hclose rfl

/-- A hexadecimal escape that is read covers some characters of the text. -/
theorem length_le_of_readHex (h : readHex text = .ok (bytes, length)) : 0 < length ∧ length ≤ text.length := by
  rw [readHex] at h
  split at h
  · next hdigits =>
    cases h
    have hlength := congrArg List.length hdigits
    simp only [List.length_map, List.length_take, List.length_drop, List.length_cons, List.length_nil] at hlength
    omega
  · cases h

/-- A decimal escape that is read covers some characters of the text. -/
theorem length_le_of_readDecimal (htext : 0 < text.length) (h : readDecimal text = .ok (bytes, length)) :
    0 < length ∧ length ≤ text.length := by
  have hrun := (List.takeWhile_prefix (l := (text.drop 1).take 3) Char.isDigit).length_le
  rw [List.length_take, List.length_drop] at hrun
  rw [readDecimal] at h
  split at h
  · cases h
  · cases h
    omega

/-- An escape has a character and lies in its text. -/
theorem length_le_of_read (h : read dialect ('\\' :: c :: rest) = .ok (bytes, length)) :
    0 < length ∧ length ≤ rest.length + 2 := by
  have hbreak := Text.lineBreak_le_length (c :: rest)
  have hblanks := Text.countWhile_le (fun d => Text.isBlank d || Text.isLineEnd d) rest
  rw [List.length_cons] at hbreak
  obtain ⟨reader, hreader⟩ := exists_reader dialect c
  rw [hreader.read_eq] at h
  cases hreader with
  | decimal => exact @length_le_of_readDecimal ('\\' :: c :: rest) bytes length (Nat.succ_pos _) h
  | hex => exact length_le_of_readHex h
  | codePoint => exact length_le_of_readCodePoint h
  | refused => cases h
  | lineBreak =>
    cases h
    rw [List.drop_succ_cons, List.drop_zero]
    omega
  | skip =>
    cases h
    rw [List.drop_succ_cons, List.drop_succ_cons, List.drop_zero]
    omega
  | letter =>
    cases h
    omega
  | other =>
    cases h
    omega

/-! ## Letters -/

/-- A letter with an escape of its own is one byte and ends no line. -/
theorem isLineEnd_of_simple? {byte : UInt8} (h : simple? c = some byte) :
    Text.isLineEnd c = false ∧ c.toNat < 0x80 := by
  unfold simple? at h
  split at h <;> cases h <;> exact ⟨rfl, by decide⟩

/-- No character beyond ASCII differs from another in its escape. -/
theorem uniform_simple? : Text.Uniform simple? := by
  have hnone (c : Char) (hc : 0x80 ≤ c.toNat) : simple? c = none := by
    cases h : simple? c with
    | none => rfl
    | some byte =>
      have hlt := (isLineEnd_of_simple? h).2
      omega
  exact fun c d hc hd => (hnone c hc).trans (hnone d hd).symm

end Escape

namespace Guarded

variable {α β : Type} {source text rest behind a : Text} {dialect : Dialect} {quote c : Char}
  {fuel start read count ahead : Nat}

/-! ## Errors that quote -/

/-- A wrong escape yields the fault at the place where the reader stands. -/
theorem yields_wrong (hsmall : source.size + 1 < 2 ^ 32) (hstart : start + text.size = source.size) (message : Message)
    (before : List Text) :
    Yields source text (wrong source start ahead message before : Guarded α) (text.drop read)
      (.error (Escape.fault text read ahead message before)) := by
  intro first place hfirst hplace
  obtain rfl := offset_of_marks hstart hfirst
  obtain ⟨stop, hgives, hstop⟩ := @yields_fail α source text read hsmall message
    (before ++ [text.take read ++ Text.covering ahead (text.drop read)]) first place hfirst hplace
  rw [← List.take_append_drop read text] at hfirst
  exact ⟨stop, (gives_shown hfirst hplace).bind hgives, hstop⟩

/-- What is wrong may be quoted just as far as it was read. -/
theorem yields_quoted (hsmall : source.size + 1 < 2 ^ 32) (hstart : start + text.size = source.size) (message : Message) :
    Yields source text (wrong source start 0 message [] : Guarded α) (text.drop read)
      (.error (.after text read message [text.take read])) := by
  have hwrong := @yields_wrong α source text start read 0 hsmall hstart message []
  rwa [Escape.fault, Text.covering_zero, List.append_nil, List.nil_append] at hwrong

/-! ## Blanks and digits -/

/-- Blanks and line ends are skipped. -/
theorem leads_blanks (hsmall : source.size + 1 < 2 ^ 32) (h : rest.length < fuel) :
    Leads source (blanks source fuel) rest () (rest.dropWhile fun c => Text.isBlank c || Text.isLineEnd c) := by
  induction fuel generalizing rest with
  | zero => cases h
  | succ fuel ih =>
    cases rest with
    | nil => exact leads_peek.bind (leads_pure ())
    | cons c rest =>
      refine leads_peek_cons.bind ?_
      dsimp only
      rw [Text.ascii_isBlank.uniform.front]
      cases hblank : Text.isBlank c with
      | true =>
        rw [if_pos rfl, List.dropWhile_cons_of_pos (by rw [hblank]; rfl)]
        exact (leads_advance_one (Trivium.isLineEnd_of_isBlank c hblank) (Text.ascii_isBlank.lt hblank)).bind
          (ih (Nat.lt_of_succ_lt_succ h))
      | false =>
        rw [if_neg Bool.false_ne_true]
        refine (leads_breakLine hsmall).bind ?_
        rw [List.head?_cons, Option.any_some]
        cases hend : Text.isLineEnd c with
        | true =>
          have hdrop : (c :: rest).dropWhile (fun c => Text.isBlank c || Text.isLineEnd c) =
              ((c :: rest).drop (Text.lineBreak (c :: rest))).dropWhile
                fun c => Text.isBlank c || Text.isLineEnd c := by
            conv_lhs => rw [← List.take_append_drop (Text.lineBreak (c :: rest)) (c :: rest)]
            refine List.dropWhile_append_of_pos fun d hmem => ?_
            rw [Trivium.isLineEnd_of_lineBreak _ d hmem, Bool.or_true]
          rw [if_pos rfl, hdrop]
          refine ih ?_
          have hpos := Text.lineBreak_pos hend rest
          rw [List.length_drop]
          rw [List.length_cons] at h ⊢
          omega
        | false =>
          rw [if_neg Bool.false_ne_true, @lineBreak_of_not (c :: rest) hend, List.drop_zero,
            List.dropWhile_cons_of_neg (by simp [hblank, hend])]
          exact leads_pure ()

/-- The digits behind some that were read, which have made a value. -/
theorem leads_decimal {value : Nat} (hcount : count ≤ 3) (hfuel : 3 - count < fuel) (hvalue : value < 10 ^ count)
    (hstart : start + count + rest.size = source.size) :
    Leads source (decimal source start fuel value) rest
      (((rest.take (3 - count)).takeWhile Char.isDigit).foldl (fun number digit => number * 10 + Digit.value digit) value)
      (rest.drop ((rest.take (3 - count)).takeWhile Char.isDigit).length) := by
  induction fuel generalizing rest count value with
  | zero => cases hfuel
  | succ fuel ih =>
    refine leads_since hstart ?_
    rcases Nat.lt_or_ge count 3 with hlt | hge
    · rw [if_pos hlt]
      cases rest with
      | nil =>
        rw [List.take_nil]
        exact leads_peek.bind (leads_pure value)
      | cons c rest =>
        refine leads_peek_cons.bind ?_
        dsimp only
        rw [Text.ascii_isDigit.uniform.front, show 3 - count = 3 - (count + 1) + 1 by omega, List.take_succ_cons]
        cases hdigit : c.isDigit with
        | true =>
          have hascii := Text.ascii_isDigit.lt hdigit
          have hpower : value * 10 + Digit.value c < 10 ^ (count + 1) := by
            have := Text.value_lt hdigit
            rw [Nat.pow_succ]
            omega
          have hsmall : 10 ^ (count + 1) ≤ 10 ^ 3 := Nat.pow_le_pow_right (by decide) (by omega)
          rw [if_pos rfl, List.takeWhile_cons_of_pos hdigit, List.foldl_cons, List.length_cons, List.drop_succ_cons,
            Text.front_of_lt hascii]
          refine (leads_minus (Text.toNat_of_isDigit hdigit).1).bind ((leads_word (by omega)).bind ?_)
          refine (leads_advance_one (Text.isLineEnd_of_isDigit c hdigit) hascii).bind ?_
          refine ih (by omega) (by omega) hpower ?_
          rw [Text.size_cons, Text.utf8Size_of_lt hascii] at hstart
          omega
        | false =>
          rw [if_neg Bool.false_ne_true, List.takeWhile_cons_of_neg (by simp [hdigit])]
          exact leads_pure value
    · obtain rfl : count = 3 := by omega
      rw [if_neg (by omega), Nat.sub_self, List.take_zero]
      exact leads_pure value

/-- A hexadecimal digit ends no line. -/
theorem isLineEnd_of_hex? {digit : Nat} (h : Digit.hex? c = some digit) : Text.isLineEnd c = false :=
  Text.isLineEnd_of_isHex c (by rw [Digit.isHex, h]; rfl)

/-- What is read of a code point whose digits begin behind some characters. -/
def codePointFound (text : Text) (read : Nat) : Except Nat (Nat × Nat) → Except Fault (Nat × Nat)
  | .ok (code, count) => .ok (code, count + read)
  | .error count => .error (Escape.fault text (count + read) 0 .codePointTooLarge [])

/-- A code point behind a value, or where it leaves Unicode. -/
theorem yields_codePoint (hsmall : source.size + 1 < 2 ^ 32) (hstart : start + text.size = source.size) {value : Nat}
    (hfuel : (text.drop read).length < fuel) (hvalue : value ≤ 0x10FFFF) :
    Yields source text (codePoint source start fuel value) (text.drop read)
      (codePointFound text read (Escape.codePoint value (text.drop read))) := by
  induction fuel generalizing read value with
  | zero => cases hfuel
  | succ fuel ih =>
    refine leads_peek.bind_yields ?_
    have hnone : Yields source text (pure value) (text.drop read) (.ok (value, 0 + read)) :=
      yields_pure (by rw [Nat.zero_add]) value
    cases hrest : text.drop read with
    | nil =>
      rw [hrest] at hnone
      exact hnone
    | cons c rest =>
      obtain ⟨hbehind, hlength⟩ := drop_succ_of_cons hrest
      rw [List.head?_cons, Option.map_some, Option.bind_some, Text.uniform_hex?.front, Escape.codePoint]
      cases hdigit : Digit.hex? c with
      | none =>
        rw [hrest] at hnone
        exact hnone
      | some digit =>
        dsimp only
        obtain ⟨hascii, hsixteen⟩ := Text.lt_of_hex? hdigit
        refine (leads_word (by omega)).bind_yields ?_
        refine (leads_advance_one (isLineEnd_of_hex? hdigit) hascii).bind_yields ?_
        rw [← hbehind]
        split
        · show Yields source text _ _ (.error (Escape.fault text (1 + read) 0 .codePointTooLarge []))
          rw [Nat.add_comm 1 read]
          exact yields_wrong hsmall hstart .codePointTooLarge []
        · next hsmaller =>
          have hothers : (text.drop (read + 1)).length < fuel := by
            rw [hrest] at hfuel
            rw [hbehind]
            exact Nat.lt_of_succ_lt_succ hfuel
          have hcode := ih hothers (Nat.le_of_not_lt hsmaller)
          cases hread : Escape.codePoint (value * 16 + digit) (text.drop (read + 1)) with
          | ok found =>
            rw [hread, codePointFound, ← Nat.add_assoc, Nat.add_right_comm] at hcode
            exact hcode
          | error count =>
            rw [hread, codePointFound, ← Nat.add_assoc, Nat.add_right_comm] at hcode
            exact hcode

/-! ## Escapes -/

/-- Missing digits yield the fault of an escape without them. -/
theorem yields_digitsMissing (hsmall : source.size + 1 < 2 ^ 32) (hstart : start + text.size = source.size) :
    Yields source text (digitsMissing source start : Guarded α) (text.drop read) (.error
      { Escape.fault text read 2 .hexDigitExpected [] with endOfInput := Text.size (text.drop read) < 2 }) := by
  intro first place hfirst hplace
  obtain rfl := offset_of_marks hstart hfirst
  rw [← List.take_append_drop read text] at hfirst
  have hoffset := hplace.offset_add
  have hend : decide (source.bytes.length < place.offset + 2) = decide (Text.size (text.drop read) < 2) :=
    decide_eq_decide.mpr (by rw [Text.length_bytes]; omega)
  refine ⟨place, (gives_shown hfirst hplace).bind ((gives_here place).bind ?_), hplace⟩
  refine (gives_errorAt hsmall hplace hplace rfl _ _).bind ?_
  rw [hend]
  exact gives_blame _ place

/-- A hexadecimal escape is read as the text says. -/
theorem yields_hexEscape (hsmall : source.size + 1 < 2 ^ 32)
    (hstart : start + Text.size ('\\' :: 'x' :: rest) = source.size) :
    Yields source ('\\' :: 'x' :: rest) (hexEscape source start) ('x' :: rest)
      (Escape.readHex ('\\' :: 'x' :: rest)) := by
  have hmissing : Yields source ('\\' :: 'x' :: rest) (digitsMissing source start : Guarded (List UInt8)) rest (.error
      { Escape.fault ('\\' :: 'x' :: rest) 2 2 .hexDigitExpected [] with endOfInput := Text.size rest < 2 }) :=
    @yields_digitsMissing _ source _ start 2 hsmall hstart
  refine (leads_advance_one (by decide) (by decide)).bind_yields (leads_peek.bind_yields ?_)
  rw [Escape.readHex, List.drop_succ_cons, List.drop_succ_cons, List.drop_zero]
  cases rest with
  | nil =>
    exact (leads_peek_any 1).bind_yields hmissing
  | cons c rest =>
    rw [List.head?_cons, Option.map_some, Option.bind_some, Text.uniform_hex?.front, List.take_succ_cons, List.map_cons]
    cases hhigh : Digit.hex? c with
    | none => exact (leads_peek_any 1).bind_yields hmissing
    | some high =>
      obtain ⟨hascii, hsixteen⟩ := Text.lt_of_hex? hhigh
      refine (leads_peek_second hascii).bind_yields ?_
      cases rest with
      | nil => exact hmissing
      | cons d rest =>
        rw [List.head?_cons, Option.map_some, Option.bind_some, Text.uniform_hex?.front, List.take_succ_cons, List.map_cons,
          List.take_zero, List.map_nil]
        cases hlow : Digit.hex? d with
        | none => exact hmissing
        | some low =>
          dsimp only
          obtain ⟨hascii', hsixteen'⟩ := Text.lt_of_hex? hlow
          have hdigits : ∀ e ∈ [c, d], e.toNat < 0x80 ∧ Text.isLineEnd e = false :=
            List.forall_mem_cons.mpr ⟨⟨hascii, isLineEnd_of_hex? hhigh⟩,
              List.forall_mem_singleton.mpr ⟨hascii', isLineEnd_of_hex? hlow⟩⟩
          have hvalue : high * 16 + low < 2 ^ 32 := by omega
          refine (leads_advance_ascii hdigits rfl).bind_yields ((leads_word hvalue).bind_yields ?_)
          exact yields_pure (by rfl) _

/-- A code point is read as the text says. -/
theorem yields_codePointEscape (hsmall : source.size + 1 < 2 ^ 32)
    (hstart : start + Text.size ('\\' :: 'u' :: rest) = source.size) :
    Yields source ('\\' :: 'u' :: rest) (codePointEscape source start) ('u' :: rest)
      (Escape.readCodePoint ('\\' :: 'u' :: rest)) := by
  have hwrong (read : Nat) (message : Message) (before : List Text) :
      Yields source ('\\' :: 'u' :: rest) (wrong source start 1 message before : Guarded (List UInt8))
        (('\\' :: 'u' :: rest).drop read) (.error (Escape.fault ('\\' :: 'u' :: rest) read 1 message before)) :=
    yields_wrong hsmall hstart message before
  refine (leads_advance_one (by decide) (by decide)).bind_yields (leads_peek.bind_yields ?_)
  rw [Escape.readCodePoint, show ('\\' :: 'u' :: rest).drop 2 = rest from rfl, Text.map_front_bne (by decide)]
  by_cases hopen : (rest.head? != some '\x7b') = true
  · rw [if_pos hopen, if_pos hopen]
    exact hwrong 2 .braceExpected [['\x7b']]
  rw [if_neg hopen, if_neg hopen]
  obtain ⟨digits, rfl⟩ : ∃ digits, rest = '\x7b' :: digits := by
    cases rest with
    | nil => exact absurd rfl hopen
    | cons c digits => exact ⟨digits, by simpa using hopen⟩
  refine (leads_advance_one (by decide) (by decide)).bind_yields (leads_peek.bind_yields ?_)
  rw [show ('\\' :: 'u' :: '\x7b' :: digits).drop 3 = digits from rfl]
  rw [Text.uniform_hex?.bind_front]
  by_cases hdigit : (digits.head?.bind Digit.hex?).isNone = true
  · rw [if_pos hdigit, if_pos hdigit]
    exact hwrong 3 .hexDigitExpected []
  rw [if_neg hdigit, if_neg hdigit]
  have hturns : digits.length < turns source := by
    refine lt_turns ?_
    simp only [Text.size_cons] at hstart
    omega
  have hcode := @yields_codePoint source ('\\' :: 'u' :: '\x7b' :: digits) (turns source) start 3 hsmall hstart 0 hturns
    (Nat.zero_le _)
  rw [show ('\\' :: 'u' :: '\x7b' :: digits).drop 3 = digits from rfl] at hcode
  cases hread : Escape.codePoint 0 digits with
  | error count =>
    rw [hread] at hcode
    exact hcode.ends
  | ok found =>
    rw [hread] at hcode
    refine hcode.bind (leads_peek.bind_yields ?_)
    rw [Text.map_front_bne (by decide)]
    dsimp only
    by_cases hclose : ((('\\' :: 'u' :: '\x7b' :: digits).drop (found.2 + 3)).head? != some '\x7d') = true
    · rw [if_pos hclose, if_pos hclose]
      exact hwrong (found.2 + 3) .braceExpected [['\x7d']]
    · rw [if_neg hclose, if_neg hclose]
      obtain ⟨more, hmore⟩ : ∃ more, ('\\' :: 'u' :: '\x7b' :: digits).drop (found.2 + 3) = '\x7d' :: more := by
        cases h : ('\\' :: 'u' :: '\x7b' :: digits).drop (found.2 + 3) with
        | nil => rw [h] at hclose; exact absurd rfl hclose
        | cons c more => exact ⟨more, by rw [h] at hclose; simpa using hclose⟩
      rw [hmore]
      exact (leads_advance_one (by decide) (by decide)).bind_yields (yields_pure (drop_succ_of_cons hmore).1 _)

/-- An escape behind its backslash gives the bytes that it names. -/
theorem yields_escape (hsmall : source.size + 1 < 2 ^ 32) (string : Nat)
    (hstart : start + Text.size ('\\' :: c :: rest) = source.size) :
    Yields source ('\\' :: c :: rest) (escape source dialect string) (c :: rest)
      (Escape.read dialect ('\\' :: c :: rest)) := by
  have hback : start + 1 + Text.size (c :: rest) = source.size := by
    rw [Text.size_cons, show '\\'.utf8Size = 1 from rfl] at hstart
    omega
  refine yields_begun hback fun first hfirst hoffset => leads_peek_cons.bind_yields ?_
  dsimp only
  rw [Escape.read, show ('\\' :: c :: rest).drop 1 = c :: rest from rfl, Escape.uniform_simple?.front]
  dsimp only
  cases hsimple : Escape.simple? c with
  | some byte =>
    obtain ⟨hc, hascii⟩ := Escape.isLineEnd_of_simple? hsimple
    exact (leads_advance_one hc hascii).bind_yields (yields_pure (by rfl) _)
  | none =>
    rw [Text.ascii_isLineEnd.uniform.front, Text.ascii_isDigit.uniform.front, Text.front_beq (by decide),
      Text.front_beq (by decide), Text.front_beq (by decide)]
    dsimp only
    by_cases hend : Text.isLineEnd c = true
    · rw [if_pos hend, if_pos hend]
      refine (leads_breakLine hsmall).bind_yields (yields_pure ?_ _)
      rw [Nat.add_comm]
      rfl
    rw [if_neg hend, if_neg hend]
    by_cases hdigit : c.isDigit = true
    · rw [if_pos hdigit, if_pos hdigit, hoffset, Escape.readDecimal, show ('\\' :: c :: rest).drop 1 = c :: rest from rfl]
      have hread : Leads source (decimal source (start + 1) 4 0) (c :: rest) _ _ :=
        leads_decimal (Nat.zero_le 3) (by decide) (by decide) hback
      rw [Nat.sub_zero, ← Digit.decimal] at hread
      refine hread.bind_yields ?_
      split
      · exact @yields_wrong _ source _ start (_ + 1) 0 hsmall hstart .decimalEscapeTooLarge []
      · exact yields_pure (by rfl) _
    rw [if_neg hdigit, if_neg hdigit]
    by_cases hz : (c == 'z' && dialect.has .skipBlankEscape) = true
    · rw [if_pos hz, if_pos hz]
      obtain rfl : c = 'z' := beq_iff_eq.mp (Bool.and_eq_true_iff.mp hz).1
      refine (leads_advance_one (by decide) (by decide)).bind_yields ?_
      refine (leads_blanks hsmall (lt_turns ?_)).bind_yields (yields_pure ?_ _)
      · simp only [Text.size_cons] at hback
        omega
      · rw [Nat.add_comm, ← Text.drop_countWhile]
        rfl
    rw [if_neg hz, if_neg hz]
    by_cases hx : (c == 'x' && dialect.has .hexEscapes) = true
    · rw [if_pos hx, if_pos hx]
      obtain rfl : c = 'x' := beq_iff_eq.mp (Bool.and_eq_true_iff.mp hx).1
      exact yields_hexEscape hsmall hstart
    rw [if_neg hx, if_neg hx]
    by_cases hu : (c == 'u' && dialect.has .unicodeEscapes) = true
    · rw [if_pos hu, if_pos hu]
      obtain rfl : c = 'u' := beq_iff_eq.mp (Bool.and_eq_true_iff.mp hu).1
      exact yields_codePointEscape hsmall hstart
    rw [if_neg hu, if_neg hu]
    by_cases hstrict : dialect.has .strictEscapes = true
    · rw [if_pos hstrict, if_pos hstrict]
      exact @yields_wrong _ source _ start 1 1 hsmall hstart .invalidEscape []
    · have hlength : (charFrom? source first.offset).elim 1 Char.utf8Size = c.utf8Size := by
        rw [charFrom?_of_marks hfirst]
        rfl
      have hbytes := @piece?_of_marks source rest [c] _ _ hfirst rfl
      have hencode : Text.bytes [c] = Utf8.encode c.toNat := by
        rw [Utf8.encode_toNat, Text.bytes, List.flatMap_singleton]
      rw [if_neg hstrict, if_neg hstrict, hlength, ← hencode]
      rw [Bool.not_eq_true] at hend
      refine (leads_given hbytes).bind_yields ?_
      exact (leads_advance_cons hend rfl).bind_yields (yields_pure (by rfl) _)

/-- A backslash at the end of the source names nothing. -/
theorem yields_escape_end (hsmall : source.size + 1 < 2 ^ 32) (hstart : start + text.size = source.size)
    (hpos : 0 < source.size) (hrest : text.drop read = []) :
    Yields source text (escape source dialect start) [] (.error (.after text read .unfinishedString [text.take read])) := by
  have hback : source.size - 1 + 1 + Text.size [] = source.size := by
    rw [Text.size_nil]
    omega
  refine yields_begun hback fun first hfirst hoffset => leads_peek.bind_yields ?_
  have hunfinished := @yields_quoted (List UInt8) source text start read hsmall hstart .unfinishedString
  rwa [hrest] at hunfinished

end Guarded

/-! ## Rows of pieces -/

section

variable {α ε : Type} {piece : Text → Piece α ε} {c : Char} {rest : Text}

/-- Pieces end where one stops them. -/
theorem pieces_of_stop (h : piece (c :: rest) = .stop) : pieces piece 0 (c :: rest) = .none := by rw [pieces, h]

/-- Pieces end where one fails. -/
theorem pieces_of_fail {error : ε} (h : piece (c :: rest) = .fail error) :
    pieces piece 0 (c :: rest) = ⟨[], some error⟩ := by
  rw [pieces, h]

end

namespace QuotedString

variable {dialect : Dialect} {quote c : Char} {text rest run : Text} {count : Nat} {found : List UInt8}

/-- What a string gives whose content was read up to a place, which gave some bytes. -/
def resumed (dialect : Dialect) (quote : Char) (text : Text) (count : Nat) (found : List UInt8) :
    Except Fault (List UInt8 × Nat) :=
  let content := pieces (piece dialect quote) 0 (text.drop count)
  let length := content.covered.length + count
  match content.failure with
  | some fault => .error (fault.shift length)
  | none =>
    match text.drop length with
    | c :: _ =>
      if c == quote then .ok (found ++ content.values.flatten, length + 1)
      else
        let read := if c == '\\' then length + 1 else length
        .error (.after text read .unfinishedString [text.take read])
    | [] => .error (.after text length .unfinishedString [text.take length])

/-- Reading a string is reading its content behind the quote. -/
theorem read_resumed (dialect : Dialect) (quote : Char) (text : Text) :
    read dialect quote text = (resumed dialect quote text 1 []).map fun found => (Utf8.readable found.1, found.2) := by
  simp only [read, resumed, List.drop_drop, List.nil_append]
  rw [Nat.add_comm 1]
  generalize pieces (piece dialect quote) 0 (text.drop 1) = content
  cases content.failure with
  | some fault => rfl
  | none =>
    dsimp only
    cases text.drop (content.covered.length + 1) with
    | nil => rfl
    | cons c rest =>
      dsimp only
      by_cases hquote : (c == quote) = true
      · rw [if_pos hquote, if_pos hquote]
        rfl
      · rw [if_neg hquote, if_neg hquote]
        rfl

/-- Content goes on behind its first piece. -/
theorem resumed_piece {bytes : List UInt8} (hne : run ≠ []) (hrest : text.drop count = run ++ rest)
    (h : piece dialect quote (run ++ rest) = .item bytes run.length) :
    resumed dialect quote text count found = resumed dialect quote text (count + run.length) (found ++ bytes) := by
  have hbehind : text.drop (count + run.length) = rest := by
    rw [← List.drop_drop, hrest, List.drop_left]
  have hcovered : ((pieces (piece dialect quote) 0 rest).cons run bytes).covered.length + count =
      (pieces (piece dialect quote) 0 rest).covered.length + (count + run.length) := by
    rw [Pieces.covered_cons, List.length_append]
    omega
  simp only [resumed]
  rw [hbehind, hrest, pieces_of_first hne h, hcovered, Pieces.failure_cons]
  simp only [Pieces.values, Pieces.cons, List.map_cons, List.flatten_cons, List.append_assoc]

/-- A plain character is a piece of its own bytes. -/
theorem piece_plain (h : Guarded.isPlain quote c = true) (rest : Text) :
    piece dialect quote (c :: rest) = .item (Text.bytes [c]) 1 := by
  simp only [Guarded.isPlain, Bool.not_eq_true', Bool.or_eq_false_iff, beq_eq_false_iff_ne] at h
  rw [piece_eq_item_iff, Text.bytes, List.flatMap_singleton, ← Utf8.encode_toNat]
  exact .plain h.1.1 h.1.2 h.2

/-- Content goes on behind a run of plain characters. -/
theorem resumed_run (hrun : ∀ c ∈ run, Guarded.isPlain quote c = true) (hrest : text.drop count = run ++ rest) :
    resumed dialect quote text count found =
      resumed dialect quote text (count + run.length) (found ++ Text.bytes run) := by
  induction run generalizing count found with
  | nil =>
    rw [show Text.bytes [] = [] from rfl, List.append_nil]
    rfl
  | cons c run ih =>
    obtain ⟨hc, hrun⟩ := List.forall_mem_cons.mp hrun
    have hcons : text.drop count = [c] ++ (run ++ rest) := hrest
    rw [resumed_piece (List.cons_ne_nil _ _) hcons (piece_plain hc _)]
    rw [ih hrun (by rw [← List.drop_drop, hrest]; rfl), List.append_assoc, ← Text.bytes_append, Nat.add_assoc,
      ← List.length_append]
    rfl

/-- A lone backslash at the end stops the pieces. -/
theorem piece_backslash : piece dialect quote ['\\'] = .stop :=
  piece_eq_stop_iff.mpr (.inr (.inr ⟨rfl, rfl⟩))

/-- An escape is a piece of its bytes. -/
theorem piece_escape (hquote : ¬ ('\\' == quote) = true) {bytes : List UInt8} {length : Nat}
    (h : Escape.read dialect ('\\' :: c :: rest) = .ok (bytes, length)) :
    piece dialect quote ('\\' :: c :: rest) = .item bytes length :=
  piece_eq_item_iff.mpr (.escape rfl (mt beq_iff_eq.mpr hquote) (List.cons_ne_nil c rest) h)

/-- A faulty escape fails the pieces. -/
theorem piece_escape_fails (hquote : ¬ ('\\' == quote) = true) {fault : Fault}
    (h : Escape.read dialect ('\\' :: c :: rest) = .error fault) :
    piece dialect quote ('\\' :: c :: rest) = .fail fault :=
  piece_eq_fail_iff.mpr (.escape rfl (mt beq_iff_eq.mpr hquote) (List.cons_ne_nil c rest) h)

/-- Content ends before what is no piece of it. -/
theorem resumed_stop (hrest : text.drop count = c :: rest) (hstop : piece dialect quote (c :: rest) = .stop) :
    resumed dialect quote text count found =
      if c == quote then .ok (found, count + 1)
      else
        let read := if c == '\\' then count + 1 else count
        .error (.after text read .unfinishedString [text.take read]) := by
  simp only [resumed, hrest, pieces_of_stop hstop, Pieces.failure_none, Pieces.covered_none, List.length_nil, Nat.zero_add]
  simp [Pieces.values, Pieces.none]

/-- Content ends with the source. -/
theorem resumed_end (hrest : text.drop count = []) :
    resumed dialect quote text count found = .error (.after text count .unfinishedString [text.take count]) := by
  simp only [resumed, hrest, pieces, Pieces.failure_none, Pieces.covered_none, List.length_nil, Nat.zero_add]

end QuotedString

namespace Guarded

variable {source text rest : Text} {dialect : Dialect} {quote c : Char} {fuel start read : Nat}

/-! ## Strings -/

/-- The characters beyond ASCII are all plain or none is. -/
theorem uniform_isPlain (hquote : quote.toNat < 0x80) : Text.Uniform (isPlain quote) := by
  refine Text.Ascii.uniform_not fun c hc => ?_
  have hbeq {d : Char} (h : d.toNat < 0x80) : (c == d) = false := Text.ascii_beq h c hc
  rw [hbeq hquote, Text.ascii_isLineEnd c hc, hbeq (by decide)]
  rfl

/-- A plain character ends no line. -/
theorem isLineEnd_of_isPlain (h : isPlain quote c = true) : Text.isLineEnd c = false := by
  rw [isPlain, Bool.not_eq_true', Bool.or_eq_false_iff, Bool.or_eq_false_iff] at h
  exact h.1.2

/-- Behind a backslash an escape is read, and then what else there is. -/
theorem yields_backslash (hsmall : source.size + 1 < 2 ^ 32) (hstart : start + text.size = source.size)
    (hslash : ¬ ('\\' == quote) = true) (hrest : text.drop read = '\\' :: rest) {place : Place}
    (hplace : place.Marks source ('\\' :: rest)) {found : List UInt8} {f : List UInt8 → Guarded (List UInt8)}
    (h : ∀ bytes length, 0 < length → Yields source text (f bytes) (text.drop (length + read))
      (QuotedString.resumed dialect quote text (length + read) (found ++ bytes))) :
    Yields source text (escape source dialect start >>= f) rest (QuotedString.resumed dialect quote text read found) := by
  cases rest with
  | nil =>
    have hbehind : text.drop (read + 1) = [] := (drop_succ_of_cons hrest).1
    have hpos : 0 < source.size := by
      have h := hplace.offset_add
      rw [Text.size_cons, show '\\'.utf8Size = 1 from rfl] at h
      omega
    rw [QuotedString.resumed_stop hrest QuotedString.piece_backslash, if_neg hslash,
      if_pos (beq_self_eq_true _)]
    exact (yields_escape_end hsmall hstart hpos hbehind).ends
  | cons c more =>
    have hescape := @yields_escape source more dialect c place.offset hsmall start hplace.offset_add
    have hmarks := hplace
    rw [← hrest] at hescape hmarks
    have hshift := hescape.shift hmarks fun fault => Escape.blamesStart_of_read
    rw [hrest] at hshift
    cases hread : Escape.read dialect ('\\' :: c :: more) with
    | error fault =>
      rw [hread] at hshift
      have hresumed : QuotedString.resumed dialect quote text read found = .error (fault.shift read) := by
        rw [QuotedString.resumed, hrest, pieces_of_fail (QuotedString.piece_escape_fails hslash hread)]
        dsimp only
        rw [Pieces.covered, List.map_nil, List.flatten_nil, List.length_nil, Nat.zero_add]
      rw [hresumed]
      exact hshift.ends
    | ok read' =>
      obtain ⟨bytes, length⟩ := read'
      rw [hread] at hshift
      obtain ⟨hpos, hlength⟩ := Escape.length_le_of_read hread
      have hrun : (('\\' :: c :: more).take length).length = length := by
        rw [List.length_take, List.length_cons, List.length_cons]
        omega
      have hne : ('\\' :: c :: more).take length ≠ [] := by
        rw [← List.length_pos_iff, hrun]
        exact hpos
      have hitem : QuotedString.piece dialect quote (('\\' :: c :: more).take length ++ ('\\' :: c :: more).drop length) =
          .item bytes (('\\' :: c :: more).take length).length := by
        rw [List.take_append_drop, hrun]
        exact QuotedString.piece_escape hslash hread
      rw [QuotedString.resumed_piece hne (by rw [hrest, List.take_append_drop]) hitem, hrun, Nat.add_comm read]
      exact hshift.bind (h bytes length hpos)

/-- The content of a string is read as a row of pieces. -/
theorem yields_stringBody (hsmall : source.size + 1 < 2 ^ 32) (hquote : quote.toNat < 0x80)
    (hline : Text.isLineEnd quote = false) (hstart : start + text.size = source.size)
    {found : List UInt8} (hfuel : (text.drop read).length < fuel) :
    Yields source text (stringBody source dialect quote start fuel found) (text.drop read)
      (QuotedString.resumed dialect quote text read found) := by
  induction fuel generalizing read found with
  | zero => cases hfuel
  | succ fuel ih =>
    have hparts := List.takeWhile_append_dropWhile (p := isPlain quote) (l := text.drop read)
    obtain ⟨run, hrun⟩ : ∃ run, (text.drop read).takeWhile (isPlain quote) = run := ⟨_, rfl⟩
    have hplain : ∀ c ∈ run, isPlain quote c = true := hrun ▸ fun c hc => List.mem_takeWhile_imp hc
    rw [hrun] at hparts
    have hbehind : (text.drop read).dropWhile (isPlain quote) = text.drop (read + run.length) := by
      rw [← List.drop_drop]
      conv_rhs => rw [← hparts, List.drop_left]
    have hstops : ∀ c ∈ (text.drop (read + run.length)).head?, isPlain quote c = false := by
      rw [← hbehind]
      exact fun c hc => by simpa [Option.mem_def.mp hc] using List.head?_dropWhile_not (isPlain quote) (text.drop read)
    have hshorter : (text.drop (read + run.length)).length < fuel + 1 := by
      rw [← List.drop_drop, List.length_drop]
      omega
    rw [QuotedString.resumed_run hplain hparts.symm]
    refine yields_run (uniform_isPlain hquote) (fun c => isLineEnd_of_isPlain) fun chunk place hchunk hplace =>
      leads_peek.bind_yields ?_
    rw [hbehind] at hplace ⊢
    rw [← hparts, hbehind] at hchunk
    have hbytes := piece?_between hchunk hplace
    generalize read + run.length = read at *
    have hunfinished := @yields_quoted (List UInt8) source text start read hsmall hstart .unfinishedString
    cases hrest : text.drop read with
    | nil =>
      rw [QuotedString.resumed_end hrest]
      rw [hrest] at hunfinished
      exact hunfinished
    | cons c rest =>
      have hc : isPlain quote c = false := hstops c (by rw [hrest]; rfl)
      obtain ⟨hdrop, hlength⟩ := drop_succ_of_cons hrest
      rw [List.head?_cons, Option.map_some]
      dsimp only
      rw [Text.front_beq hquote, Text.ascii_isLineEnd.uniform.front]
      by_cases hclose : (c == quote) = true
      · obtain rfl := beq_iff_eq.mp hclose
        have hstop : QuotedString.piece dialect c (c :: rest) = .stop :=
          QuotedString.piece_eq_stop_iff.mpr (.inl rfl)
        rw [if_pos hclose, QuotedString.resumed_stop hrest hstop, if_pos hclose]
        exact (leads_given hbytes).bind_yields ((leads_advance_one hline hquote).bind_yields (yields_pure hdrop _))
      rw [if_neg hclose]
      by_cases hend : Text.isLineEnd c = true
      · have hother : (c == '\\') = false := beq_false_of_ne (by rintro rfl; cases hend)
        have hstop : QuotedString.piece dialect quote (c :: rest) = .stop :=
          QuotedString.piece_eq_stop_iff.mpr (.inr (.inl hend))
        rw [if_pos hend, QuotedString.resumed_stop hrest hstop, if_neg hclose, hother]
        rw [hrest] at hunfinished
        exact hunfinished
      rw [if_neg hend]
      obtain rfl : c = '\\' := by
        rw [isPlain, Bool.not_eq_false', Bool.or_eq_true, Bool.or_eq_true] at hc
        exact beq_iff_eq.mp (hc.resolve_left (not_or_intro hclose hend))
      refine (leads_given hbytes).bind_yields ((leads_advance_one rfl (by decide)).bind_yields ?_)
      rw [hrest] at hplace
      refine yields_backslash hsmall hstart hclose hrest hplace fun bytes length hpos => ih ?_
      rw [List.length_drop] at hshorter ⊢
      omega

/-- A string is read as by a reader of characters. -/
theorem yields_string (hsmall : source.size + 1 < 2 ^ 32) (hquote : quote.toNat < 0x80)
    (hline : Text.isLineEnd quote = false) :
    Yields source (quote :: rest) (string source dialect quote) (quote :: rest)
      (QuotedString.read dialect quote (quote :: rest)) := by
  rw [QuotedString.read_resumed]
  refine yields_here fun start place hstart hplace => ?_
  have hoffset := hplace.offset_add
  have hfuel : ((quote :: rest).drop 1).length < turns source := by
    refine lt_turns ?_
    rw [List.drop_one, List.tail_cons]
    rw [Text.size_cons] at hoffset
    omega
  have hbody := @yields_stringBody source (quote :: rest) dialect quote (turns source) place.offset 1 hsmall hquote
    hline hoffset [] hfuel
  exact (leads_advance_one hline hquote).bind_yields (hbody.map Utf8.readable) start place hstart hplace

end Guarded

end LuaSyntax
