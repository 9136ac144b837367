import LuaSyntax.Proofs.Reading.Strings
import LuaSyntax.Proofs.Text.Runs

/-!
# Strings end with their quotes

What is read of a quoted string up to a quote does not depend on what stands behind the quote. A quote is no digit
and no blank, so no escape reaches over it, except the escape that is the quote's own.
-/

namespace LuaSyntax

variable {dialect : Dialect} {quote : Char}

/-- The first character is the same whatever follows a character that is there. -/
theorem head?_append_cons (text rest rest' : Text) (c : Char) :
    (text ++ c :: rest).head? = (text ++ c :: rest').head? := by
  cases text <;> rfl

namespace Escape

/-- The digits of a code point end before a character that is none. -/
theorem codePoint_append_cons {c : Char} (h : Digit.hex? c = none) (value : Nat) (text rest : Text) :
    codePoint value (text ++ c :: rest) = codePoint value text := by
  induction text generalizing value with
  | nil => simp [codePoint, h]
  | cons d text ih => simp only [List.cons_append, codePoint, ih]

/-- A code point covers no more than the text. -/
theorem count_codePoint_le {value code count : Nat} {text : Text} (h : codePoint value text = .ok (code, count)) :
    count ≤ text.length := by
  induction text generalizing value count with
  | nil =>
    cases h
    exact Nat.le_refl 0
  | cons c text ih =>
    simp only [codePoint] at h
    split at h
    · cases h
      exact Nat.zero_le _
    · next digit hdigit =>
      split at h
      · cases h
      · cases hrest : codePoint (value * 16 + digit) text with
        | error read => simp [hrest] at h
        | ok found =>
          obtain ⟨code', count'⟩ := found
          simp only [hrest] at h
          cases h
          exact Nat.succ_le_succ (ih hrest)

variable (hquote : IsQuote quote) {text rest : Text} {found : List UInt8 × Nat} (rest' : Text)

include hquote

/-- A code point in braces does not depend on what follows the closing quote. -/
theorem readCodePoint_congr {a b : Char} (h : readCodePoint (a :: b :: (text ++ quote :: rest)) = .ok found) :
    readCodePoint (a :: b :: (text ++ quote :: rest')) = .ok found := by
  cases text with
  | nil =>
    have hbrace : (some quote != some '\x7b') = true := by
      rcases hquote with rfl | rfl <;> rfl
    simp [readCodePoint, hbrace] at h
  | cons c text =>
    simp only [readCodePoint, List.cons_append, List.drop_succ_cons, List.drop_zero, List.head?_cons,
      codePoint_append_cons hquote.hex?_eq_none] at h ⊢
    rw [head?_append_cons text rest' rest]
    split
    · next hbrace =>
      rw [if_pos hbrace] at h
      cases h
    · next hbrace =>
      rw [if_neg hbrace] at h
      split
      · next hdigit =>
        rw [if_pos hdigit] at h
        cases h
      · next hdigit =>
        rw [if_neg hdigit] at h
        cases hcode : codePoint 0 text with
        | error count => simp [hcode] at h
        | ok code =>
          obtain ⟨value, count⟩ := code
          have hdrop (rest : Text) : (text ++ quote :: rest).drop count = text.drop count ++ quote :: rest :=
            List.drop_append_of_le_length (count_codePoint_le hcode)
          simp only [hcode, hdrop] at h ⊢
          rw [head?_append_cons _ rest' rest]
          split
          · next hclose =>
            rw [if_pos hclose] at h
            cases h
          · next hclose =>
            rw [if_neg hclose] at h
            exact h

/-- A hexadecimal escape does not depend on what follows the closing quote. -/
theorem readHex_congr {a b : Char} (h : readHex (a :: b :: (text ++ quote :: rest)) = .ok found) :
    readHex (a :: b :: (text ++ quote :: rest')) = .ok found := by
  have hnone := hquote.hex?_eq_none
  simp only [readHex, List.drop_succ_cons, List.drop_zero] at h ⊢
  cases text with
  | nil => cases rest <;> simp [hnone] at h
  | cons c text =>
    cases text with
    | nil => simp [hnone] at h
    | cons d text =>
      simp only [List.cons_append, List.take_succ_cons, List.take_zero, List.map_cons, List.map_nil] at h ⊢
      cases hc : Digit.hex? c with
      | none => simp [hc] at h
      | some high =>
        cases hd : Digit.hex? d with
        | none => simp [hc, hd] at h
        | some low => simpa only [hc, hd] using h

/-- A decimal escape does not depend on what follows the closing quote. -/
theorem readDecimal_congr {a : Char} (h : readDecimal (a :: (text ++ quote :: rest)) = .ok found) :
    readDecimal (a :: (text ++ quote :: rest')) = .ok found := by
  simp only [readDecimal, List.drop_succ_cons, List.drop_zero,
    Text.takeWhile_take_append_cons hquote.not_digit] at h ⊢
  split
  · next hlarge =>
    rw [if_pos hlarge] at h
    cases h
  · next hsmall =>
    rw [if_neg hsmall] at h
    exact h

/-- An escape before a quote does not reach over it. -/
theorem read_congr {c : Char} (h : read dialect (c :: (text ++ quote :: rest)) = .ok found) :
    read dialect (c :: (text ++ quote :: rest')) = .ok found := by
  cases text with
  | nil =>
    obtain ⟨byte, hbyte⟩ : ∃ byte, simple? quote = some byte := by
      rcases hquote with rfl | rfl
      · exact ⟨_, rfl⟩
      · exact ⟨_, rfl⟩
    simpa only [read, List.nil_append, List.drop_succ_cons, List.drop_zero, hbyte] using h
  | cons d text =>
    obtain ⟨reader, hreader⟩ := exists_reader dialect d
    rw [List.cons_append, hreader.read_eq] at h ⊢
    cases hreader with
    | letter => exact h
    | lineBreak hend =>
      rw [← h]
      cases text with
      | nil => simp [Text.lineBreak, hend, hquote.not_isLineEnd]
      | cons e text => rfl
    | decimal => exact @readDecimal_congr _ hquote (d :: text) _ _ rest' _ h
    | skip =>
      have hblank : (Text.isBlank quote || Text.isLineEnd quote) = false := by
        rcases hquote with rfl | rfl <;> rfl
      simp only [List.drop_succ_cons, List.drop_zero, Text.countWhile] at h ⊢
      rw [← h, Text.takeWhile_append_cons hblank, Text.takeWhile_append_cons hblank]
    | hex => exact readHex_congr hquote rest' h
    | codePoint => exact readCodePoint_congr hquote rest' h
    | refused => cases h
    | other => exact h

end Escape

namespace QuotedString

variable (hquote : IsQuote quote) {text rest : Text} (rest' : Text)

include hquote

/-- A piece of a string does not depend on what follows the closing quote. -/
theorem piece_congr {c : Char} {bytes : List UInt8} {length : Nat}
    (h : piece dialect quote (c :: (text ++ quote :: rest)) = .item bytes length) :
    piece dialect quote (c :: (text ++ quote :: rest')) = .item bytes length := by
  rw [piece_eq_item_iff] at h ⊢
  cases h with
  | plain hplain hend hslash => exact .plain hplain hend hslash
  | escape hc hplain _ hread => exact .escape hc hplain (by simp) (Escape.read_congr hquote rest' hread)

/-- A row of pieces that goes up to a quote goes up to it whatever stands behind. -/
theorem pieces_congr_quote {skip : Nat}
    (hnone : (pieces (piece dialect quote) skip (text ++ quote :: rest)).failure = none)
    (hcovered : skip + (pieces (piece dialect quote) skip (text ++ quote :: rest)).covered.length = text.length) :
    pieces (piece dialect quote) skip (text ++ quote :: rest') =
      pieces (piece dialect quote) skip (text ++ quote :: rest) := by
  induction text generalizing skip with
  | nil =>
    obtain rfl : skip = 0 := (Nat.add_eq_zero_iff.mp hcovered).1
    have hstop (rest : Text) : piece dialect quote (quote :: rest) = .stop := piece_eq_stop_iff.mpr (.inl rfl)
    rw [List.nil_append, List.nil_append, pieces, pieces, hstop, hstop]
  | cons c text ih =>
    rw [List.cons_append, List.cons_append] at *
    cases skip with
    | succ skip =>
      rw [pieces] at hnone hcovered
      rw [pieces, pieces]
      exact ih hnone (by rw [List.length_cons] at hcovered; omega)
    | zero =>
      rw [pieces] at hnone hcovered
      rw [pieces, pieces]
      cases hpiece : piece dialect quote (c :: (text ++ quote :: rest)) with
      | stop =>
        simp only [hpiece, Pieces.covered_none, List.length_nil, List.length_cons] at hcovered
        omega
      | fail fault => simp [hpiece] at hnone
      | item bytes length =>
        rw [piece_congr hquote rest' hpiece]
        simp only [hpiece, Pieces.failure_cons, Pieces.covered_cons, List.length_append, List.length_cons,
          List.length_take] at hnone hcovered ⊢
        have hinside : length - 1 ≤ text.length := by omega
        rw [ih hnone (by omega), List.take_append_of_le_length hinside, List.take_append_of_le_length hinside]

/-- A string is the same whatever stands behind its second quote. -/
theorem read_congr {value : Text} (h : read dialect quote (text ++ rest) = .ok (value, text.length)) :
    read dialect quote (text ++ rest') = .ok (value, text.length) := by
  cases text with
  | nil =>
    have := length_of_read h
    simp at this
  | cons first text =>
    rw [List.cons_append, read_eq_ok_iff, List.drop_succ_cons, List.drop_zero] at h ⊢
    obtain ⟨hnone, hhead, hvalue, hcount⟩ := h
    obtain ⟨behind, hbehind⟩ := List.head?_eq_some_iff.mp hhead
    generalize hlength : (pieces (piece dialect quote) 0 (text ++ rest)).covered.length = length at hbehind hcount
    rw [List.length_cons] at hcount
    -- the quote is the last character of the text
    obtain ⟨inside, rfl⟩ : ∃ inside, text = inside ++ [quote] := by
      have hlast : text.drop length = [quote] := by
        rw [List.drop_append_of_le_length (by omega)] at hbehind
        have hone : (text.drop length).length = 1 := by
          rw [List.length_drop]
          omega
        obtain ⟨d, hd⟩ := List.length_eq_one_iff.mp hone
        rw [hd] at hbehind
        rw [hd, (List.cons.inj hbehind).1]
      exact ⟨text.take length, by rw [← hlast, List.take_append_drop]⟩
    rw [List.append_assoc, List.singleton_append] at *
    rw [List.length_append, List.length_singleton] at hcount
    obtain rfl : length = inside.length := by omega
    rw [pieces_congr_quote hquote rest' hnone (by omega), hlength, List.drop_left]
    exact ⟨hnone, rfl, hvalue, by rw [List.length_cons, List.length_append]; rfl⟩

end QuotedString

end LuaSyntax
