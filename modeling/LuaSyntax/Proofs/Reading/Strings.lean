import LuaSyntax.Proofs.Reading.Pieces
import LuaSyntax.Proofs.Text.Scan
import LuaSyntax.Token.Escape

/-!
# Quoted strings in a growing text

A string that was closed is closed in every longer text, since nothing behind its quote is looked at.
A string that cannot be read although the text goes on cannot be read in any longer text either.
The only thing in a string whose end has to be looked for is an escape, so what has to be shown is
that an escape never decides anything before it has seen the character that ends it.

Which of its readers an escape is left to is told by the character behind the backslash
(`Escape.Reader`), and what the row of a string does at a character by that character
(`QuotedString.Goes`).
-/

namespace LuaSyntax

variable {dialect : Dialect} {text more : Text} {fault : Fault}

/-- A fault is at the end of the input exactly when nothing is left behind what was read. -/
theorem Fault.after_endOfInput {read : Nat} {message : Message} {arguments : List Text} :
    (Fault.after text read message arguments).endOfInput = (text.drop read).isEmpty := rfl

/-! ## Quotes -/

section

variable {quote : Char}

/-- A character that quotes a string. -/
def IsQuote (quote : Char) : Prop := quote = '\'' ∨ quote = '"'

/-- A quote is no digit. -/
theorem IsQuote.not_digit (h : IsQuote quote) : quote.isDigit = false := by
  rcases h with rfl | rfl <;> rfl

/-- A quote is no hexadecimal digit. -/
theorem IsQuote.hex?_eq_none (h : IsQuote quote) : Digit.hex? quote = none := by
  rcases h with rfl | rfl <;> rfl

/-- A quote ends no line. -/
theorem IsQuote.not_isLineEnd (h : IsQuote quote) : Text.isLineEnd quote = false := by
  rcases h with rfl | rfl <;> rfl

end

namespace Escape

/-! ## Code points -/

/-- The digits of a code point are read no further than the text goes. -/
theorem codePoint_append {value code count : Nat} (h : codePoint value text = .ok (code, count))
    (hrest : text.drop count ≠ []) : codePoint value (text ++ more) = .ok (code, count) := by
  induction text generalizing value count with
  | nil => simp at hrest
  | cons c text ih =>
    simp only [List.cons_append, codePoint] at h ⊢
    split at h
    · exact h
    · split at h
      · cases h
      · next digit hdigit hsmall =>
        rw [if_neg hsmall]
        cases hc : codePoint (value * 16 + digit) text with
        | error read => simp [hc] at h
        | ok found =>
          obtain ⟨code', count'⟩ := found
          simp only [hc, Except.ok.injEq, Prod.mk.injEq] at h
          obtain ⟨rfl, rfl⟩ := h
          rw [List.drop_succ_cons] at hrest
          rw [ih hc hrest]

/-- A value that leaves Unicode has left it in every longer text. -/
theorem codePoint_error_append {value read : Nat} (h : codePoint value text = .error read) :
    codePoint value (text ++ more) = .error read := by
  induction text generalizing value read with
  | nil => simp [codePoint] at h
  | cons c text ih =>
    simp only [List.cons_append, codePoint] at h ⊢
    split at h
    · cases h
    · split at h
      · next hlarge =>
        rw [if_pos hlarge]
        exact h
      · next digit hdigit hsmall =>
        rw [if_neg hsmall]
        cases hc : codePoint (value * 16 + digit) text with
        | ok found => simp [hc] at h
        | error read' =>
          rw [ih hc]
          simpa [hc] using h

/-- A code point is read alike when more follows. -/
theorem readCodePoint_append {bytes : List UInt8} {length : Nat}
    (h : readCodePoint text = .ok (bytes, length)) :
    readCodePoint (text ++ more) = .ok (bytes, length) := by
  simp only [readCodePoint] at h ⊢
  split at h
  · cases h
  · next hbrace =>
    have h2 : text.drop 2 ≠ [] := by
      intro he
      simp [he] at hbrace
    split at h
    · cases h
    · next hdigit =>
      have h3 : text.drop 3 ≠ [] := by
        intro he
        simp [he] at hdigit
      rw [Text.head?_drop_append _ h2, if_neg hbrace, Text.head?_drop_append _ h3, if_neg hdigit]
      have hl : 3 ≤ text.length := by
        by_contra hlt
        exact h3 (List.drop_eq_nil_of_le (by omega))
      cases hc : codePoint 0 (text.drop 3) with
      | error read => simp [hc] at h
      | ok found =>
        obtain ⟨code, count⟩ := found
        simp only [hc] at h
        split at h
        · cases h
        · next hclose =>
          have hend : text.drop (count + 3) ≠ [] := by
            intro he
            simp [he] at hclose
          rw [List.drop_append_of_le_length hl,
            codePoint_append hc (by rw [List.drop_drop, Nat.add_comm]; exact hend)]
          simp only [Text.head?_drop_append _ hend, if_neg hclose]
          exact h

/-- A code point that fails within the text fails when more follows. -/
theorem readCodePoint_error_append (h : readCodePoint text = .error fault)
    (hend : fault.endOfInput = false) :
    ∃ fault', readCodePoint (text ++ more) = .error fault' := by
  simp only [readCodePoint] at h ⊢
  split at h
  · next hbrace =>
    cases h
    rw [fault, Fault.after_endOfInput, List.isEmpty_eq_false_iff] at hend
    exact ⟨_, by rw [Text.head?_drop_append _ hend, if_pos hbrace]⟩
  · next hbrace =>
    have h2 : text.drop 2 ≠ [] := by
      intro he
      simp [he] at hbrace
    rw [Text.head?_drop_append _ h2, if_neg hbrace]
    split at h
    · next hdigit =>
      cases h
      rw [fault, Fault.after_endOfInput, List.isEmpty_eq_false_iff] at hend
      exact ⟨_, by rw [Text.head?_drop_append _ hend, if_pos hdigit]⟩
    · next hdigit =>
      have h3 : text.drop 3 ≠ [] := by
        intro he
        simp [he] at hdigit
      have hl : 3 ≤ text.length := by
        by_contra hlt
        exact h3 (List.drop_eq_nil_of_le (by omega))
      rw [Text.head?_drop_append _ h3, if_neg hdigit, List.drop_append_of_le_length hl]
      cases hc : codePoint 0 (text.drop 3) with
      | error read => exact ⟨_, by rw [codePoint_error_append hc]⟩
      | ok found =>
        obtain ⟨code, count⟩ := found
        simp only [hc] at h
        split at h
        · next hclose =>
          cases h
          rw [fault, Fault.after_endOfInput, List.isEmpty_eq_false_iff] at hend
          rw [codePoint_append hc (by rw [List.drop_drop, Nat.add_comm]; exact hend)]
          simp only [Text.head?_drop_append _ hend, if_pos hclose]
          exact ⟨_, rfl⟩
        · cases h

/-! ## Other escapes -/

/-- At most three digits are read, and no further than the text goes. -/
theorem take_takeWhile_append {p : Char → Bool} {count : Nat}
    (h : ((text.take count).takeWhile p).length < text.length) :
    ((text ++ more).take count).takeWhile p = (text.take count).takeWhile p := by
  by_cases hc : count ≤ text.length
  · rw [List.take_append_of_le_length hc]
  · have ht : text.take count = text := List.take_of_length_le (by omega)
    rw [ht] at h ⊢
    rw [List.take_append, ht, Text.takeWhile_append_of_lt _ h]

/-- A character of several bytes is no hexadecimal digit. -/
theorem hex?_eq_none_of_two_le {c : Char} (h : 2 ≤ c.utf8Size) : Digit.hex? c = none := by
  have hlarge : 0x80 ≤ c.toNat := by
    by_contra hlt
    have hone : c.utf8Size = 1 := by
      rw [Char.utf8Size, if_pos]
      exact UInt32.le_iff_toNat_le.mpr (Nat.le_of_lt_succ (Nat.lt_of_not_le hlt))
    omega
  have hle (d : Char) (hd : d.toNat < 0x80) : ¬ c ≤ d := by
    intro hcd
    have : c.toNat ≤ d.toNat := hcd
    omega
  have hdigit : c.isDigit = false := by
    by_contra hd
    rw [Bool.not_eq_false, Char.isDigit, Bool.and_eq_true, decide_eq_true_eq,
      decide_eq_true_eq] at hd
    exact hle '9' (by decide) hd.2
  rw [Digit.hex?, hdigit]
  simp [hle 'f' (by decide), hle 'F' (by decide)]

/-- A decimal escape that ends before the text does is read alike when more follows. -/
theorem readDecimal_append {bytes : List UInt8} {length : Nat}
    (h : readDecimal text = .ok (bytes, length)) (hl : length < text.length) :
    readDecimal (text ++ more) = .ok (bytes, length) := by
  have ht : 1 ≤ text.length := by omega
  simp only [readDecimal] at h ⊢
  split at h
  · cases h
  · next hsmall =>
    cases h
    have hrun : (((text.drop 1).take 3).takeWhile Char.isDigit).length < (text.drop 1).length := by
      rw [List.length_drop]
      omega
    rw [List.drop_append_of_le_length ht, take_takeWhile_append hrun, if_neg hsmall]

/-- A decimal escape that fails within the text fails when more follows. -/
theorem readDecimal_error_append (h : readDecimal text = .error fault)
    (hend : fault.endOfInput = false) : ∃ fault', readDecimal (text ++ more) = .error fault' := by
  simp only [readDecimal] at h ⊢
  split at h
  · next hlarge =>
    cases h
    rw [Escape.fault, Fault.after_endOfInput, List.isEmpty_eq_false_iff] at hend
    have hl := List.length_pos_iff.mpr hend
    rw [List.length_drop] at hl
    have hrun : (((text.drop 1).take 3).takeWhile Char.isDigit).length < (text.drop 1).length := by
      rw [List.length_drop]
      omega
    rw [List.drop_append_of_le_length (by omega), take_takeWhile_append hrun, if_pos hlarge]
    exact ⟨_, rfl⟩
  · cases h

/-- A hexadecimal escape is read alike when more follows. -/
theorem readHex_append {bytes : List UInt8} {length : Nat}
    (h : readHex text = .ok (bytes, length)) : readHex (text ++ more) = .ok (bytes, length) := by
  simp only [readHex] at h ⊢
  split at h
  · next high low hdigits =>
    have hl : 2 ≤ (text.drop 2).length := by
      have := congrArg List.length hdigits
      simp only [List.length_map, List.length_take, List.length_cons, List.length_nil] at this
      omega
    have ht : 2 ≤ text.length := by
      rw [List.length_drop] at hl
      omega
    rw [List.drop_append_of_le_length ht, List.take_append_of_le_length hl, hdigits]
    exact h
  · cases h

/-- A hexadecimal escape that fails within the text fails when more follows. -/
theorem readHex_error_append (h : readHex text = .error fault) (hend : fault.endOfInput = false) :
    ∃ fault', readHex (text ++ more) = .error fault' := by
  simp only [readHex] at h ⊢
  split at h
  · cases h
  · next hdigits =>
    cases h
    have hsize : ¬ Text.size (text.drop 2) < 2 := by simpa using hend
    have ht : 2 ≤ text.length := by
      by_contra hlt
      rw [List.drop_eq_nil_of_le (by omega)] at hsize
      exact hsize (by decide)
    rw [List.drop_append_of_le_length ht]
    cases hafter : text.drop 2 with
    | nil =>
      rw [hafter] at hsize
      exact absurd (by decide) hsize
    | cons c after =>
      rw [hafter] at hdigits hsize
      cases after with
      | cons d after =>
        simp only [List.cons_append, List.take_succ_cons, List.take_zero, List.map_cons,
          List.map_nil] at hdigits ⊢
        split
        · next high low hboth => exact absurd hboth (hdigits high low)
        · exact ⟨_, rfl⟩
      | nil =>
        -- one character of two bytes: it is no digit, whatever follows it
        have hnone : Digit.hex? c = none := by
          apply hex?_eq_none_of_two_le
          simp only [Text.size_cons, Text.size_nil] at hsize
          omega
        simp only [List.cons_append, List.take_succ_cons, List.map_cons, hnone]
        exact ⟨_, rfl⟩

/-! ## Escapes -/

/-- Whether an escape that the dialect knows begins with a character. -/
def Known (dialect : Dialect) (c : Char) : Prop :=
  simple? c ≠ none ∨ Text.isLineEnd c = true ∨ c.isDigit = true ∨
    (c == 'z' && dialect.has .skipBlankEscape) = true ∨ (c == 'x' && dialect.has .hexEscapes) = true ∨
    (c == 'u' && dialect.has .unicodeEscapes) = true

/-- The readers of escapes, each with the characters behind the backslash that it is for. -/
inductive Reader (dialect : Dialect) (c : Char) : (Text → Result) → Prop where
  | letter {byte : UInt8} : simple? c = some byte → Reader dialect c fun _ => .ok ([byte], 2)
  | lineBreak : Text.isLineEnd c = true →
      Reader dialect c fun text => .ok ([0x0A], 1 + Text.lineBreak (text.drop 1))
  | decimal : c.isDigit = true → Reader dialect c readDecimal
  | skip : c = 'z' → dialect.has .skipBlankEscape = true → Reader dialect c fun text =>
      .ok ([], 2 + Text.countWhile (fun d => Text.isBlank d || Text.isLineEnd d) (text.drop 2))
  | hex : c = 'x' → dialect.has .hexEscapes = true → Reader dialect c readHex
  | codePoint : c = 'u' → dialect.has .unicodeEscapes = true → Reader dialect c readCodePoint
  | refused : ¬ Known dialect c → dialect.has .strictEscapes = true →
      Reader dialect c fun text => .error (Escape.fault text 1 1 .invalidEscape [])
  | other : ¬ Known dialect c → dialect.has .strictEscapes = false →
      Reader dialect c fun _ => .ok (Utf8.encode c.toNat, 2)

/-- A digit has no escape of its own. -/
theorem simple?_of_isDigit {c : Char} (h : c.isDigit = true) : simple? c = none := by
  unfold simple?
  split <;> first | rfl | exact absurd h (by decide)

/-- The end of a line has no escape of its own. -/
theorem simple?_of_isLineEnd {c : Char} (h : Text.isLineEnd c = true) : simple? c = none := by
  unfold simple?
  split <;> first | rfl | exact absurd h (by decide)

/-- The character behind the backslash decides what reads an escape. -/
theorem exists_reader (dialect : Dialect) (c : Char) : ∃ reader, Reader dialect c reader := by
  by_cases hknown : Known dialect c
  · rcases hknown with hsimple | hend | hdigit | hskip | hhex | hcode
    · obtain ⟨byte, hbyte⟩ := Option.ne_none_iff_exists'.mp hsimple
      exact ⟨_, .letter hbyte⟩
    · exact ⟨_, .lineBreak hend⟩
    · exact ⟨_, .decimal hdigit⟩
    · rw [Bool.and_eq_true, beq_iff_eq] at hskip
      exact ⟨_, .skip hskip.1 hskip.2⟩
    · rw [Bool.and_eq_true, beq_iff_eq] at hhex
      exact ⟨_, .hex hhex.1 hhex.2⟩
    · rw [Bool.and_eq_true, beq_iff_eq] at hcode
      exact ⟨_, .codePoint hcode.1 hcode.2⟩
  · cases hstrict : dialect.has .strictEscapes with
    | true => exact ⟨_, .refused hknown hstrict⟩
    | false => exact ⟨_, .other hknown hstrict⟩

/-- It decides it whatever stands behind it. -/
theorem Reader.read_eq {c : Char} {reader : Text → Result} (h : Reader dialect c reader) (first : Char)
    (rest : Text) : read dialect (first :: c :: rest) = reader (first :: c :: rest) := by
  simp only [read, List.drop_succ_cons, List.drop_zero]
  cases h with
  | letter hbyte => simp only [hbyte]
  | lineBreak hend => simp only [simple?_of_isLineEnd hend, hend, if_true, List.drop_succ_cons, List.drop_zero]
  | decimal hdigit =>
    have hend : Text.isLineEnd c = false := Text.isLineEnd_of_isDigit c hdigit
    simp only [simple?_of_isDigit hdigit, hend, hdigit, Bool.false_eq_true, if_false, if_true]
  | skip hc hskip =>
    subst hc
    simp only [hskip]
    rfl
  | hex hc hhex =>
    subst hc
    simp only [hhex]
    rfl
  | codePoint hc hcode =>
    subst hc
    simp only [hcode]
    rfl
  | refused hknown hstrict =>
    simp only [Known, not_or, not_not, Bool.not_eq_true] at hknown
    simp [hknown, hstrict]
  | other hknown hstrict =>
    simp only [Known, not_or, not_not, Bool.not_eq_true] at hknown
    simp [hknown, hstrict]

variable (more) in
/-- An escape that ends before the end of the text is the same escape in a longer text. -/
theorem read_append {bytes : List UInt8} {length : Nat}
    (h : read dialect text = .ok (bytes, length)) (hl : length < text.length) :
    read dialect (text ++ more) = .ok (bytes, length) := by
  match text with
  | [] => simp at hl
  | [_] =>
    cases h
    simp at hl
  | first :: c :: rest =>
    obtain ⟨reader, hreader⟩ := exists_reader dialect c
    rw [hreader.read_eq] at h
    rw [List.cons_append, List.cons_append, hreader.read_eq]
    cases hreader with
    | letter => exact h
    | lineBreak hend =>
      cases h
      simp only [List.drop_succ_cons, List.drop_zero] at hl ⊢
      rw [← List.cons_append, Text.lineBreak_append]
      -- a break of one character behind which the text ends is not before the end
      cases rest with
      | nil => simp [Text.lineBreak, hend] at hl
      | cons d rest => simp
    | decimal => exact readDecimal_append h hl
    | skip =>
      cases h
      simp only [List.drop_succ_cons, List.drop_zero, List.length_cons] at hl ⊢
      rw [Text.countWhile_append_of_lt (by omega)]
    | hex => exact readHex_append h
    | codePoint => exact readCodePoint_append h
    | refused => cases h
    | other => exact h

variable (more) in
/-- An escape that is wrong although the text goes on is wrong in a longer text. -/
theorem read_error_append (h : read dialect text = .error fault) (hend : fault.endOfInput = false) :
    ∃ fault', read dialect (text ++ more) = .error fault' := by
  match text with
  | [] => cases h
  | [_] => cases h
  | first :: c :: rest =>
    obtain ⟨reader, hreader⟩ := exists_reader dialect c
    rw [hreader.read_eq] at h
    rw [List.cons_append, List.cons_append, hreader.read_eq]
    cases hreader with
    | decimal => exact readDecimal_error_append h hend
    | hex => exact readHex_error_append h hend
    | codePoint => exact readCodePoint_error_append h hend
    | refused => exact ⟨_, rfl⟩
    | letter => cases h
    | lineBreak => cases h
    | skip => cases h
    | other => cases h

end Escape

namespace QuotedString

/-! ## Pieces -/

/-- What goes on with the content of a string: a plain character, or an escape that has something behind
its backslash. -/
inductive Goes (dialect : Dialect) (quote c : Char) (rest : Text) : Escape.Result → Prop where
  | plain : c ≠ quote → Text.isLineEnd c = false → c ≠ '\\' → Goes dialect quote c rest (.ok (Utf8.encode c.toNat, 1))
  | escape {result : Escape.Result} : c = '\\' → c ≠ quote → rest ≠ [] → Escape.read dialect (c :: rest) = result →
      Goes dialect quote c rest result

/-- The piece that such a result gives. -/
def pieceOf : Escape.Result → Piece (List UInt8) Fault
  | .ok (bytes, length) => .item bytes length
  | .error fault => .fail fault

section

variable {quote c : Char} {rest : Text} {bytes : List UInt8} {length : Nat}

/-- The content of a string ends before its quote, before a line end and before a last backslash. -/
theorem piece_eq_stop_iff : piece dialect quote (c :: rest) = .stop ↔
    c = quote ∨ Text.isLineEnd c = true ∨ c = '\\' ∧ rest = [] := by
  by_cases hend : (c == quote || Text.isLineEnd c) = true
  · rw [piece, if_pos hend, eq_self_iff_true, true_iff, ← or_assoc, ← beq_iff_eq, ← Bool.or_eq_true]
    exact .inl hend
  · rw [piece, if_neg hend]
    rw [Bool.or_eq_true, beq_iff_eq, not_or] at hend
    rw [or_iff_right hend.1, or_iff_right hend.2]
    by_cases hslash : c = '\\'
    · rw [if_pos (beq_iff_eq.mpr hslash), and_iff_right hslash]
      cases rest with
      | nil => simp
      | cons d rest => cases hread : Escape.read dialect (c :: d :: rest) <;> simp
    · rw [if_neg (mt beq_iff_eq.mp hslash)]
      simp [hslash]

/-- What goes on with the content of a string is no end of it. -/
theorem Goes.piece_eq {result : Escape.Result} (h : Goes dialect quote c rest result) :
    piece dialect quote (c :: rest) = pieceOf result := by
  cases h with
  | plain hquote hend hslash => simp [piece, pieceOf, hquote, hend, hslash]
  | escape hc hquote hrest hread =>
    subst hc
    have hend : ¬ ('\\' == quote || Text.isLineEnd '\\') = true := by
      rw [Bool.or_eq_true, beq_iff_eq, not_or]
      exact ⟨hquote, Bool.false_ne_true⟩
    rw [piece, if_neg hend, if_pos (beq_self_eq_true _), if_neg (by simpa using hrest), hread]
    cases result <;> rfl

/-- At a character the content of a string ends, or something goes on with it. -/
theorem stop_or_goes (dialect : Dialect) (quote c : Char) (rest : Text) :
    piece dialect quote (c :: rest) = .stop ∨ ∃ result, Goes dialect quote c rest result := by
  rw [piece_eq_stop_iff]
  by_cases hquote : c = quote
  · exact .inl (.inl hquote)
  cases hend : Text.isLineEnd c with
  | true => exact .inl (.inr (.inl rfl))
  | false =>
    by_cases hslash : c = '\\'
    · by_cases hrest : rest = []
      · exact .inl (.inr (.inr ⟨hslash, hrest⟩))
      · exact .inr ⟨_, .escape hslash hquote hrest rfl⟩
    · exact .inr ⟨_, .plain hquote hend hslash⟩

/-- Different results make different pieces. -/
theorem pieceOf_injective : Function.Injective pieceOf := by
  rintro (fault | ⟨bytes, length⟩) (fault' | ⟨bytes', length'⟩) h <;> cases h <;> rfl

/-- A piece is what the escape or the character makes it. -/
theorem piece_eq_iff {result : Escape.Result} :
    piece dialect quote (c :: rest) = pieceOf result ↔ Goes dialect quote c rest result := by
  refine ⟨fun h => ?_, Goes.piece_eq⟩
  rcases stop_or_goes dialect quote c rest with hstop | ⟨result', hgoes⟩
  · rw [hstop] at h
    cases result <;> cases h
  · obtain rfl := pieceOf_injective (hgoes.piece_eq.symm.trans h)
    exact hgoes

/-- A piece is found exactly where reading goes on. -/
theorem piece_eq_item_iff :
    piece dialect quote (c :: rest) = .item bytes length ↔ Goes dialect quote c rest (.ok (bytes, length)) :=
  @piece_eq_iff _ _ _ _ (.ok (bytes, length))

/-- A piece fails exactly where reading does. -/
theorem piece_eq_fail_iff :
    piece dialect quote (c :: rest) = .fail fault ↔ Goes dialect quote c rest (.error fault) :=
  @piece_eq_iff _ _ _ _ (.error fault)

end

variable (more) in
/-- A piece of a string that ends before the end of the text is not longer in a longer text. -/
theorem piece_firm (dialect : Dialect) (quote : Char) : Piece.Firm (piece dialect quote) more := by
  intro text value length h hl
  cases text with
  | nil => cases h
  | cons c rest =>
    rw [List.cons_append, piece_eq_item_iff]
    cases piece_eq_item_iff.mp h with
    | plain hquote hend hslash => exact .plain hquote hend hslash
    | escape hc hquote hrest hread =>
      exact .escape hc hquote (List.append_ne_nil_of_left_ne_nil hrest more) (Escape.read_append more hread hl)

/-- A piece that fails within the text fails when more follows. -/
theorem piece_fail_append {quote : Char} (h : piece dialect quote text = .fail fault)
    (hend : fault.endOfInput = false) :
    ∃ fault', piece dialect quote (text ++ more) = .fail fault' := by
  cases text with
  | nil => cases h
  | cons c rest =>
    cases piece_eq_fail_iff.mp h with
    | escape hc hquote hrest hread =>
      obtain ⟨later, hlater⟩ := Escape.read_error_append more hread hend
      exact ⟨later, piece_eq_fail_iff.mpr
        (.escape hc hquote (List.append_ne_nil_of_left_ne_nil hrest more) hlater)⟩

/-- What is no piece of a string is none in a longer text, unless it is a backslash at the end. -/
theorem piece_stop_append {quote c : Char} {rest : Text} (h : piece dialect quote (c :: rest) = .stop)
    (hrest : c = '\\' → c ≠ quote → rest ≠ []) : piece dialect quote (c :: rest ++ more) = .stop := by
  rw [List.cons_append, piece_eq_stop_iff]
  rcases piece_eq_stop_iff.mp h with hquote | hend | ⟨hslash, hnil⟩
  · exact .inl hquote
  · exact .inr (.inl hend)
  · by_cases hquote : c = quote
    · exact .inl hquote
    · exact absurd hnil (hrest hslash hquote)

/-! ## Strings -/

/-- A string is read if its content is right and a quote stands behind that. -/
theorem read_eq_ok_iff {quote : Char} {value : Text} {length : Nat} :
    read dialect quote text = .ok (value, length) ↔
      (pieces (piece dialect quote) 0 (text.drop 1)).failure = none ∧
      ((text.drop 1).drop (pieces (piece dialect quote) 0 (text.drop 1)).covered.length).head? = some quote ∧
      Utf8.readable (pieces (piece dialect quote) 0 (text.drop 1)).values.flatten = value ∧
      (pieces (piece dialect quote) 0 (text.drop 1)).covered.length + 2 = length := by
  simp only [read]
  cases (pieces (piece dialect quote) 0 (text.drop 1)).failure with
  | some fault => simp
  | none =>
    cases (text.drop 1).drop (pieces (piece dialect quote) 0 (text.drop 1)).covered.length with
    | nil => simp
    | cons c behind =>
      by_cases hc : c = quote
      · simp [hc]
      · simp [hc]

variable (more) in
/-- A string that was closed is the same string in every longer text. -/
theorem read_append {quote : Char} {value : Text} {length : Nat}
    (h : read dialect quote text = .ok (value, length)) :
    read dialect quote (text ++ more) = .ok (value, length) := by
  obtain ⟨hfailure, hquote, rfl, rfl⟩ := read_eq_ok_iff.mp h
  obtain ⟨behind, hbehind⟩ := List.head?_eq_some_iff.mp hquote
  have hlength := congrArg List.length hbehind
  simp only [List.length_drop, List.length_cons] at hlength
  have hone : 1 ≤ text.length := by omega
  have hsame := pieces_append (piece_firm more dialect quote) hfailure
    (by rw [Nat.zero_add, hbehind]; exact List.cons_ne_nil _ _)
    (by rw [Nat.zero_add, hbehind, List.cons_append, piece_eq_stop_iff]; exact .inl rfl)
  rw [read_eq_ok_iff, List.drop_append_of_le_length hone, hsame]
  refine ⟨hfailure, ?_, rfl, rfl⟩
  rw [List.drop_append_of_le_length (by rw [List.length_drop]; omega), hbehind]
  rfl

variable (more) in
/-- A string that is wrong although the text goes on is wrong in every longer text. -/
theorem read_error_append {quote : Char} (h : read dialect quote text = .error fault)
    (hend : fault.endOfInput = false) :
    ∃ fault', read dialect quote (text ++ more) = .error fault' := by
  have ht : 1 ≤ text.length := by
    by_contra hlt
    obtain rfl : text = [] := List.eq_nil_of_length_eq_zero (by omega)
    cases h
    simp [Fault.after] at hend
  simp only [read] at h ⊢
  rw [List.drop_append_of_le_length ht]
  cases hf : (pieces (piece dialect quote) 0 (text.drop 1)).failure with
  | some fault' =>
    simp only [hf, Except.error.injEq] at h
    subst h
    have hopen : fault'.endOfInput = false := hend
    obtain ⟨later, hlater⟩ := failure_append (piece_firm more dialect quote)
      (fun _ hp => piece_fail_append hp hopen) hf
    simp only [hlater]
    exact ⟨_, rfl⟩
  | none =>
    simp only [hf] at h
    split at h
    · next c after hafter =>
      split at h
      · cases h
      · next hquote =>
        cases h
        have hstop := piece_of_pieces hf
        rw [Nat.zero_add, hafter] at hstop
        have hstop := hstop.resolve_left (by simp)
        have hlen := congrArg List.length hafter
        simp only [List.length_drop, List.length_cons] at hlen
        have hlonger : piece dialect quote (c :: after ++ more) = .stop := by
          refine piece_stop_append hstop fun hslash _ => ?_
          rw [Fault.after_endOfInput, hslash, if_pos (by simp), List.isEmpty_eq_false_iff] at hend
          have := List.length_pos_iff.mpr hend
          rw [List.length_drop] at this
          exact List.length_pos_iff.mp (by omega)
        have hsame := pieces_append (piece_firm more dialect quote) hf
          (by rw [Nat.zero_add, hafter]; simp) (by rw [Nat.zero_add, hafter]; exact hlonger)
        simp only [hsame, hf]
        rw [List.drop_append_of_le_length (by rw [List.length_drop]; omega), hafter]
        simp only [List.cons_append, if_neg hquote]
        exact ⟨_, rfl⟩
    · next hafter =>
      cases h
      rw [List.drop_drop, Nat.add_comm] at hafter
      rw [Fault.after_endOfInput, hafter] at hend
      cases hend

/-- A string has at least its two quotes. -/
theorem length_of_read {quote : Char} {value : Text} {length : Nat}
    (h : read dialect quote text = .ok (value, length)) : 2 ≤ length := by
  obtain ⟨-, -, -, rfl⟩ := read_eq_ok_iff.mp h
  exact Nat.le_add_left 2 _

end QuotedString

end LuaSyntax
