import LuaSyntax.Proofs.Reading.Strings
import LuaSyntax.Proofs.Text.Scan
import LuaSyntax.Proofs.Text.Runs
import LuaSyntax.Proofs.Text.Utf8
import LuaSyntax.Token.Escape

/-!
# What escapes denote

An escape is written as a backslash and a few characters more, and denotes bytes. How many characters belong to it is
decided by the first one that does not go on with it, so what an escape denotes is told together with the text behind
it. The grammar stands in `Escape.Denotes`, one case for each kind of escape; the reader reads just that.
-/

namespace LuaSyntax

/-- The number that a row of hexadecimal digits denotes. -/
def Digit.hexadecimal (digits : List Char) : Nat :=
  digits.foldl (fun number digit => number * 16 + (Digit.hex? digit).getD 0) 0

/-- The characters that an escape can skip. -/
def Text.spaces : Text := [' ', '\t', '\x0b', '\x0c', '\n', '\r']

namespace Escape

/-- The letters and quotes that denote one byte in every dialect. -/
def letters : List (Char × UInt8) :=
  [('a', 0x07), ('b', 0x08), ('f', 0x0C), ('n', 0x0A), ('r', 0x0D), ('t', 0x09), ('v', 0x0B), ('\\', 0x5C),
    ('"', 0x22), ('\'', 0x27)]

/-- Whether an escape of a dialect begins with a character, unknown escapes aside. -/
def Begins (dialect : Dialect) (c : Char) : Prop :=
  c ∈ letters.map Prod.fst ∨ [c] ∈ Text.lineBreaks ∨ c.isDigit = true ∨
    c = 'z' ∧ dialect.has .skipBlankEscape = true ∨ c = 'x' ∧ dialect.has .hexEscapes = true ∨
    c = 'u' ∧ dialect.has .unicodeEscapes = true

/-- Which bytes a text denotes behind a backslash, with another text behind it. -/
inductive Denotes (dialect : Dialect) : Text → Text → List UInt8 → Prop
  | letter {c : Char} {byte : UInt8} {behind : Text} : (c, byte) ∈ letters → Denotes dialect [c] behind [byte]
  | lineBreak {text behind : Text} : text ∈ Text.lineBreaks → (∀ c ∈ behind.head?, text ++ [c] ∉ Text.lineBreaks) →
      Denotes dialect text behind [0x0A]
  /-- Up to three decimal digits, and as many as there are. -/
  | decimal {digits behind : Text} : digits ≠ [] → digits.length ≤ 3 → (∀ c ∈ digits, c.isDigit = true) →
      (digits.length < 3 → ∀ c ∈ behind.head?, c.isDigit = false) → Digit.decimal digits ≤ 255 →
      Denotes dialect digits behind [UInt8.ofNat (Digit.decimal digits)]
  /-- The spaces that follow, all of them. -/
  | skip {spaces behind : Text} : dialect.has .skipBlankEscape = true → (∀ c ∈ spaces, c ∈ Text.spaces) →
      (∀ c ∈ behind.head?, c ∉ Text.spaces) → Denotes dialect ('z' :: spaces) behind []
  | hex {digits behind : Text} : dialect.has .hexEscapes = true → digits.length = 2 →
      (∀ c ∈ digits, Digit.isHex c = true) →
      Denotes dialect ('x' :: digits) behind [UInt8.ofNat (Digit.hexadecimal digits)]
  /-- A code point in braces. -/
  | codePoint {digits behind : Text} : dialect.has .unicodeEscapes = true → digits ≠ [] →
      (∀ c ∈ digits, Digit.isHex c = true) → Digit.hexadecimal digits ≤ 0x10FFFF →
      Denotes dialect ('u' :: '\x7b' :: (digits ++ ['\x7d'])) behind (Utf8.encode (Digit.hexadecimal digits))
  /-- Any other character, which denotes itself. -/
  | other {c : Char} {behind : Text} : dialect.has .strictEscapes = false → ¬ Begins dialect c →
      Denotes dialect [c] behind (String.utf8EncodeChar c)

variable {dialect : Dialect} {digits text behind : Text} {bytes : List UInt8}

/-- The letters with an escape of their own are those of the table. -/
theorem simple?_eq_some_iff {c : Char} {byte : UInt8} : simple? c = some byte ↔ (c, byte) ∈ letters := by
  constructor
  · intro h
    unfold simple? at h
    split at h <;> simp_all [letters]
  · intro h
    simp only [letters, List.mem_cons, Prod.mk.injEq, List.not_mem_nil, or_false] at h
    rcases h with h | h | h | h | h | h | h | h | h | h <;> rw [h.1, h.2] <;> rfl

/-! ## Digits -/

/-- A decimal escape is up to three digits, followed by none if there are fewer, with a value of one byte. -/
theorem readDecimal_iff :
    readDecimal ('\\' :: (digits ++ behind)) = .ok (bytes, digits.length + 1) ↔
      (digits.length ≤ 3 ∧ (∀ c ∈ digits, c.isDigit = true) ∧
        (digits.length < 3 → ∀ c ∈ behind.head?, c.isDigit = false)) ∧
      Digit.decimal digits ≤ 255 ∧ bytes = [UInt8.ofNat (Digit.decimal digits)] := by
  rw [← Text.takeWhile_take_append_iff]
  simp only [readDecimal, List.drop_succ_cons, List.drop_zero]
  have hprefix : ((digits ++ behind).take 3).takeWhile Char.isDigit <+: digits ++ behind :=
    (List.takeWhile_prefix _).trans (List.take_prefix _ _)
  generalize ((digits ++ behind).take 3).takeWhile Char.isDigit = run at hprefix ⊢
  split
  · next hlarge =>
    refine iff_of_false (by simp) ?_
    rintro ⟨rfl, hsmall, -⟩
    omega
  · next hsmall =>
    simp only [Except.ok.injEq, Prod.mk.injEq, Nat.add_right_cancel_iff]
    constructor
    · rintro ⟨rfl, hlength⟩
      obtain rfl := Text.eq_of_prefix_append hprefix hlength
      exact ⟨rfl, Nat.le_of_not_lt hsmall, rfl⟩
    · rintro ⟨rfl, -, rfl⟩
      exact ⟨rfl, rfl⟩

/-- A hexadecimal escape covers four characters. -/
theorem length_of_readHex {length : Nat} (h : readHex text = .ok (bytes, length)) : length = 4 := by
  simp only [readHex] at h
  split at h
  · cases h
    rfl
  · cases h

/-- A hexadecimal escape is two hexadecimal digits. -/
theorem readHex_iff :
    readHex ('\\' :: 'x' :: (digits ++ behind)) = .ok (bytes, digits.length + 2) ↔
      digits.length = 2 ∧ (∀ c ∈ digits, Digit.isHex c = true) ∧
        bytes = [UInt8.ofNat (Digit.hexadecimal digits)] := by
  by_cases hlength : digits.length = 2
  · obtain ⟨a, b, rfl⟩ := List.length_eq_two.mp hlength
    have htake : ([a, b] ++ behind).take 2 = [a, b] := rfl
    simp only [readHex, List.drop_succ_cons, List.drop_zero, htake, List.map_cons, List.map_nil, List.forall_mem_cons,
      Digit.isHex, Digit.hexadecimal, List.foldl_cons, List.foldl_nil]
    cases ha : Digit.hex? a with
    | none => simp
    | some high =>
      cases hb : Digit.hex? b with
      | none => simp
      | some low => simp [@eq_comm _ bytes]
  · refine iff_of_false (fun h => ?_) (fun h => hlength h.1)
    have := length_of_readHex h
    omega

/-! ## Code points -/

/-- A number with hexadecimal digits behind it. -/
def push (number : Nat) (digits : Text) : Nat :=
  digits.foldl (fun number digit => number * 16 + (Digit.hex? digit).getD 0) number

/-- A digit more makes no number smaller. -/
theorem le_push (number : Nat) (digits : Text) : number ≤ push number digits := by
  induction digits generalizing number with
  | nil => exact Nat.le_refl _
  | cons digit digits ih =>
    have := ih (number * 16 + (Digit.hex? digit).getD 0)
    rw [push, List.foldl_cons, ← push]
    omega

/-- The digits at the front of a text are read as the number they denote, if it is a code point. -/
theorem codePoint_of_digits {value : Nat} (hdigits : ∀ c ∈ digits, Digit.isHex c = true)
    (hbehind : ∀ c ∈ behind.head?, Digit.isHex c = false) (hlast : push value digits ≤ 0x10FFFF) :
    codePoint value (digits ++ behind) = .ok (push value digits, digits.length) := by
  induction digits generalizing value with
  | nil =>
    cases behind with
    | nil => rfl
    | cons c behind =>
      have hc : Digit.hex? c = none := by simpa [Digit.isHex] using hbehind c rfl
      simp only [List.nil_append, codePoint, hc]
      rfl
  | cons digit digits ih =>
    obtain ⟨hdigit, hdigits⟩ := List.forall_mem_cons.mp hdigits
    obtain ⟨number, hnumber⟩ := Option.isSome_iff_exists.mp hdigit
    have hpush : push value (digit :: digits) = push (value * 16 + number) digits := by
      rw [push, List.foldl_cons, hnumber, Option.getD_some, ← push]
    rw [hpush] at hlast ⊢
    have hle := le_push (value * 16 + number) digits
    simp only [List.cons_append, codePoint, hnumber]
    rw [if_neg (by omega), ih hdigits hlast]
    rfl

/-- What is read as a code point are the digits at the front of the text. -/
theorem digits_of_codePoint {value code count : Nat} (h : codePoint value text = .ok (code, count)) :
    ∃ digits behind, text = digits ++ behind ∧ digits.length = count ∧ (∀ c ∈ digits, Digit.isHex c = true) ∧
      (∀ c ∈ behind.head?, Digit.isHex c = false) ∧ code = push value digits ∧ (digits ≠ [] → code ≤ 0x10FFFF) := by
  induction text generalizing value count with
  | nil =>
    cases h
    exact ⟨[], [], by simp [push]⟩
  | cons c text ih =>
    simp only [codePoint] at h
    split at h
    · next hc =>
      cases h
      exact ⟨[], c :: text, by simp [push, Digit.isHex, hc]⟩
    · next number hnumber =>
      split at h
      · cases h
      · next hle =>
        cases hrest : codePoint (value * 16 + number) text with
        | error read => simp [hrest] at h
        | ok found =>
          obtain ⟨code', count'⟩ := found
          simp only [hrest] at h
          cases h
          obtain ⟨digits, behind, rfl, rfl, hdigits, hbehind, rfl, hlast⟩ := ih hrest
          refine ⟨c :: digits, behind, rfl, rfl, List.forall_mem_cons.mpr ⟨by simp [Digit.isHex, hnumber], hdigits⟩,
            hbehind, ?_, fun _ => ?_⟩
          · rw [push, push, List.foldl_cons, hnumber, Option.getD_some]
          · cases digits with
            | nil => exact Nat.le_of_not_lt hle
            | cons digit digits => exact hlast (List.cons_ne_nil _ _)

/-- A closing brace is no hexadecimal digit. -/
theorem not_isHex_brace : ∀ c ∈ ('\x7d' :: behind).head?, Digit.isHex c = false := by
  rintro c ⟨⟩
  rfl

/-- A code point is hexadecimal digits in braces with a value up to the last code point. -/
theorem readCodePoint_iff :
    readCodePoint ('\\' :: 'u' :: (text ++ behind)) = .ok (bytes, text.length + 2) ↔
      ∃ digits, text = '\x7b' :: (digits ++ ['\x7d']) ∧ digits ≠ [] ∧ (∀ c ∈ digits, Digit.isHex c = true) ∧
        Digit.hexadecimal digits ≤ 0x10FFFF ∧ bytes = Utf8.encode (Digit.hexadecimal digits) := by
  constructor
  · intro h
    simp only [readCodePoint, List.drop_succ_cons, List.drop_zero] at h
    split at h
    · cases h
    next hopen =>
    split at h
    · cases h
    next hsome =>
    split at h
    · cases h
    next code count hcode =>
    obtain ⟨c, rest, hrest⟩ : ∃ c rest, text ++ behind = c :: rest := by
      refine List.exists_cons_of_ne_nil fun hnil => ?_
      simp [hnil] at hopen
    rw [hrest] at hopen hsome hcode h
    obtain rfl : c = '\x7b' := by simpa using hopen
    rw [List.drop_succ_cons, List.drop_zero] at hsome hcode
    obtain ⟨digits, after, rfl, rfl, hdigits, -, rfl, hlast⟩ := digits_of_codePoint hcode
    rw [List.drop_succ_cons, List.drop_left] at h
    split at h
    · cases h
    next hclose =>
    obtain ⟨after, rfl⟩ : ∃ rest, after = '\x7d' :: rest := by
      cases after with
      | nil => simp at hclose
      | cons d after => exact ⟨after, by simpa using hclose⟩
    simp only [Except.ok.injEq, Prod.mk.injEq] at h
    obtain ⟨rfl, hlength⟩ := h
    have hne : digits ≠ [] := by
      rintro rfl
      exact hsome rfl
    refine ⟨digits, (@Text.eq_of_prefix_append _ behind _ ?_ ?_).symm, hne, hdigits, hlast hne, rfl⟩
    · exact ⟨after, by rw [hrest]; simp⟩
    · simp
      omega
  · rintro ⟨digits, rfl, hne, hdigits, hlast, rfl⟩
    have hcode : codePoint 0 (digits ++ '}' :: behind) = .ok (Digit.hexadecimal digits, digits.length) :=
      codePoint_of_digits hdigits not_isHex_brace hlast
    obtain ⟨d, more, rfl⟩ := List.exists_cons_of_ne_nil hne
    have hd : Digit.hex? d ≠ none := by
      simpa [Digit.isHex, Option.isSome_iff_ne_none] using hdigits d List.mem_cons_self
    simp only [List.cons_append] at hcode
    simp [readCodePoint, hcode, hd]

/-! ## All escapes -/

/-- What `\z` skips are the spaces. -/
theorem isSpace_iff {c : Char} : (Text.isBlank c || Text.isLineEnd c) = true ↔ c ∈ Text.spaces := by
  simp [Text.isBlank, Text.isLineEnd, Text.spaces, or_assoc]

/-- As many characters are skipped as there are spaces in a row. -/
theorem countWhile_isSpace_iff :
    Text.countWhile (fun c => Text.isBlank c || Text.isLineEnd c) (text ++ behind) = text.length ↔
      (∀ c ∈ text, c ∈ Text.spaces) ∧ ∀ c ∈ behind.head?, c ∉ Text.spaces := by
  rw [Text.countWhile, Text.length_takeWhile_append_iff]
  simp only [← isSpace_iff, Bool.not_eq_true]

/-- The escapes that begin with a character are those that the reader knows. -/
theorem begins_iff {c : Char} : Begins dialect c ↔ Known dialect c := by
  have hletter : c ∈ letters.map Prod.fst ↔ simple? c ≠ none := by
    rw [List.mem_map, Option.ne_none_iff_exists']
    constructor
    · rintro ⟨⟨_, byte⟩, hmem, rfl⟩
      exact ⟨byte, simple?_eq_some_iff.mpr hmem⟩
    · rintro ⟨byte, hbyte⟩
      exact ⟨(c, byte), simple?_eq_some_iff.mp hbyte, rfl⟩
  simp only [Begins, Known, hletter, Text.one_mem_lineBreaks, Bool.and_eq_true, beq_iff_eq]

/-- An escape has a character behind its backslash. -/
theorem two_le_of_read {c : Char} {rest : Text} {length : Nat}
    (h : read dialect ('\\' :: c :: rest) = .ok (bytes, length)) : 2 ≤ length := by
  obtain ⟨reader, hreader⟩ := exists_reader dialect c
  rw [hreader.read_eq] at h
  cases hreader with
  | letter =>
    cases h
    exact Nat.le_refl 2
  | lineBreak hend =>
    cases h
    have := Text.lineBreak_pos hend rest
    rw [List.drop_succ_cons, List.drop_zero]
    omega
  | decimal hdigit =>
    simp only [readDecimal, List.drop_succ_cons, List.drop_zero, List.take_succ_cons,
      List.takeWhile_cons_of_pos hdigit, List.length_cons] at h
    split at h
    · cases h
    · cases h
      omega
  | skip =>
    cases h
    omega
  | hex =>
    rw [length_of_readHex h]
    omega
  | codePoint =>
    simp only [readCodePoint] at h
    repeat' split at h
    all_goals cases h
    omega
  | refused => cases h
  | other =>
    cases h
    exact Nat.le_refl 2

/-- What is read behind a backslash is what it denotes. -/
theorem denotes_of_read (hne : text ≠ [])
    (h : read dialect ('\\' :: (text ++ behind)) = .ok (bytes, text.length + 1)) :
    Denotes dialect text behind bytes := by
  obtain ⟨c, rest, rfl⟩ := List.exists_cons_of_ne_nil hne
  obtain ⟨reader, hreader⟩ := exists_reader dialect c
  rw [List.cons_append, hreader.read_eq] at h
  cases hreader with
  | letter hbyte =>
    simp only [Except.ok.injEq, Prod.mk.injEq, List.length_cons] at h
    obtain ⟨rfl, hlength⟩ := h
    obtain rfl : rest = [] := List.eq_nil_of_length_eq_zero (by omega)
    exact .letter (simple?_eq_some_iff.mp hbyte)
  | lineBreak =>
    simp only [Except.ok.injEq, Prod.mk.injEq, List.drop_succ_cons, List.drop_zero] at h
    obtain ⟨rfl, hlength⟩ := h
    rw [Nat.add_comm, Nat.add_right_cancel_iff, ← List.cons_append, Text.lineBreak_append_iff] at hlength
    exact .lineBreak (hlength.1.resolve_left hne) hlength.2
  | decimal =>
    obtain ⟨⟨hmost, hdigits, hbehind⟩, hsmall, rfl⟩ := (@readDecimal_iff (c :: rest) behind bytes).mp h
    exact .decimal hne hmost hdigits hbehind hsmall
  | skip hc hskip =>
    subst hc
    simp only [Except.ok.injEq, Prod.mk.injEq, List.length_cons, List.drop_succ_cons, List.drop_zero] at h
    obtain ⟨rfl, hlength⟩ := h
    rw [Nat.add_comm 2, Nat.add_right_cancel_iff] at hlength
    obtain ⟨hspaces, hbehind⟩ := countWhile_isSpace_iff.mp hlength
    exact .skip hskip hspaces hbehind
  | hex hc hhex =>
    subst hc
    obtain ⟨htwo, hdigits, rfl⟩ := readHex_iff.mp h
    exact .hex hhex htwo hdigits
  | codePoint hc hcode =>
    subst hc
    obtain ⟨digits, rfl, hsome, hdigits, hlast, rfl⟩ := readCodePoint_iff.mp h
    exact .codePoint hcode hsome hdigits hlast
  | refused => cases h
  | other hknown hlenient =>
    simp only [Except.ok.injEq, Prod.mk.injEq, List.length_cons] at h
    obtain ⟨rfl, hlength⟩ := h
    obtain rfl : rest = [] := List.eq_nil_of_length_eq_zero (by omega)
    rw [Utf8.encode_toNat]
    exact .other hlenient (mt begins_iff.mp hknown)

/-- What some text denotes behind a backslash is read there. -/
theorem Denotes.read_eq (h : Denotes dialect text behind bytes) :
    read dialect ('\\' :: (text ++ behind)) = .ok (bytes, text.length + 1) := by
  cases h with
  | letter hmem => exact (Reader.letter (simple?_eq_some_iff.mpr hmem)).read_eq _ _
  | lineBreak hmem hbehind =>
    have hlength := Text.lineBreak_append_iff.mpr ⟨.inr hmem, hbehind⟩
    obtain ⟨c, rest, rfl⟩ := List.exists_cons_of_ne_nil (Text.ne_nil_of_mem_lineBreaks hmem)
    have hend := Text.isLineEnd_of_mem_lineBreaks hmem c List.mem_cons_self
    rw [List.cons_append] at hlength ⊢
    rw [(Reader.lineBreak hend).read_eq, List.drop_succ_cons, List.drop_zero, hlength, Nat.add_comm]
  | decimal hne hmost hdigits hbehind hsmall =>
    obtain ⟨c, rest, rfl⟩ := List.exists_cons_of_ne_nil hne
    rw [List.cons_append, (Reader.decimal (hdigits c List.mem_cons_self)).read_eq]
    exact (@readDecimal_iff (c :: rest) behind _).mpr ⟨⟨hmost, hdigits, hbehind⟩, hsmall, rfl⟩
  | skip hskip hspaces hbehind =>
    rw [List.cons_append, (Reader.skip rfl hskip).read_eq, List.drop_succ_cons, List.drop_succ_cons,
      List.drop_zero, countWhile_isSpace_iff.mpr ⟨hspaces, hbehind⟩, List.length_cons, Nat.add_comm 2]
  | hex hhex htwo hdigits =>
    rw [List.cons_append, (Reader.hex rfl hhex).read_eq]
    exact readHex_iff.mpr ⟨htwo, hdigits, rfl⟩
  | codePoint hcode hsome hdigits hlast =>
    rw [List.cons_append, (Reader.codePoint rfl hcode).read_eq]
    exact readCodePoint_iff.mpr ⟨_, rfl, hsome, hdigits, hlast, rfl⟩
  | other hlenient hbegins =>
    rw [← Utf8.encode_toNat]
    exact (Reader.other (mt begins_iff.mpr hbegins) hlenient).read_eq _ _

end Escape

end LuaSyntax
