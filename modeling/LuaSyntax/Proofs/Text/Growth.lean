import Mathlib.Data.List.Infix
import Mathlib.Data.List.TakeWhile
import LuaSyntax.Placement

/-!
# Texts that grow

Input arrives in pieces, so what is read now stands in a text that may be longer later. This module
holds what a longer text leaves alone: the columns of the offsets it had already, a run of characters
that ended before the end, a line break with something behind it, the first occurrence of a text.

The side condition is the same everywhere. An answer that was found before the end of the text is the
answer in every longer text; one that touches the end may not be.
-/

namespace LuaSyntax.Text

variable {text rest more : Text}

/-! ## Runs of characters -/

variable (more) in
/-- A run that ends before the end of the text ends there in every longer text. -/
theorem takeWhile_append_of_lt {p : Char → Bool} (h : (text.takeWhile p).length < text.length) :
    (text ++ more).takeWhile p = text.takeWhile p := by
  rw [List.takeWhile_append, if_neg (Nat.ne_of_lt h)]

/-- The length of a run that ends before the end of the text. -/
theorem countWhile_append_of_lt {p : Char → Bool} (h : countWhile p text < text.length) :
    countWhile p (text ++ more) = countWhile p text := by
  rw [countWhile, takeWhile_append_of_lt _ h, countWhile]

/-- A run is no longer than the text it begins. -/
theorem countWhile_le (p : Char → Bool) (text : Text) : countWhile p text ≤ text.length :=
  (List.takeWhile_prefix p).length_le

/-- Behind a run stands what the run does not cover. -/
theorem drop_countWhile (p : Char → Bool) (text : Text) :
    text.drop (countWhile p text) = text.dropWhile p := by
  have hrun : text.takeWhile p ++ text.drop (countWhile p text) = text :=
    (List.prefix_append_drop (List.takeWhile_prefix p)).symm
  exact List.append_cancel_left (hrun.trans List.takeWhile_append_dropWhile.symm)

/-- With two characters in view it is known how many of them the line break has. -/
theorem lineBreak_append (h : 2 ≤ text.length) : lineBreak (text ++ more) = lineBreak text := by
  match text with
  | [] => simp at h
  | [_] => simp at h
  | _ :: _ :: _ => rfl

/-- The end of a line makes a line break. -/
theorem lineBreak_pos {c : Char} (h : isLineEnd c = true) (rest : Text) :
    0 < lineBreak (c :: rest) := by
  cases rest with
  | nil => simp [lineBreak, h]
  | cons d rest =>
    rw [lineBreak, if_pos h]
    split <;> omega

/-- The first character of a text is the same when more follows. -/
theorem head?_append_of_ne_nil (h : text ≠ []) : (text ++ more).head? = text.head? := by
  cases text with
  | nil => exact absurd rfl h
  | cons c text => rfl

variable (more) in
/-- With something behind a beginning, the same comes first behind it in a longer text. -/
theorem head?_drop_append {count : Nat} (h : text.drop count ≠ []) :
    ((text ++ more).drop count).head? = (text.drop count).head? := by
  have hl : count < text.length := by
    by_contra hge
    exact h (List.drop_eq_nil_of_le (by omega))
  rw [List.drop_append_of_le_length hl.le, head?_append_of_ne_nil h]

variable (more) in
/-- Whether a text begins with another is known once it is long enough. -/
theorem isPrefixOf_append {sought : Text} (h : sought.length ≤ text.length) :
    sought.isPrefixOf (text ++ more) = sought.isPrefixOf text := by
  rw [Bool.eq_iff_iff, List.isPrefixOf_iff_prefix, List.isPrefixOf_iff_prefix]
  constructor
  · intro hprefix
    exact List.prefix_of_prefix_length_le hprefix (List.prefix_append text more) h
  · intro hprefix
    exact hprefix.trans (List.prefix_append text more)

/-! ## Byte counts -/

/-- No character fits into no bytes. -/
@[simp] theorem within_zero (text : Text) : within 0 text = [] := by
  cases text with
  | nil => rfl
  | cons c rest => rw [within, if_neg (by have := c.utf8Size_pos; omega)]

/-- The bytes of a text hold none of what comes behind it. -/
theorem within_append {count : Nat} (h : count ≤ size text) :
    within count (text ++ more) = within count text := by
  induction text generalizing count with
  | nil =>
    obtain rfl : count = 0 := by simpa using h
    simp
  | cons c text ih =>
    simp only [List.cons_append, within]
    split
    · rw [ih]
      simp only [size_cons] at h
      omega
    · rfl

/-- The bytes of a text hold all of it. -/
theorem within_size (text : Text) : within (size text) text = text := by
  induction text with
  | nil => rfl
  | cons c text ih => rw [within, size_cons, if_pos (by omega), Nat.add_sub_cancel_left, ih]

/-- A cut between two characters falls between the same two in a longer text. -/
theorem dropBytes_append {count : Nat} (h : count ≤ size text) :
    dropBytes count (text ++ more) = (dropBytes count text).map (· ++ more) := by
  induction text generalizing count with
  | nil =>
    obtain rfl : count = 0 := by simpa using h
    cases more <;> simp [dropBytes]
  | cons c text ih =>
    simp only [List.cons_append, dropBytes]
    split
    · rfl
    · split
      · rw [ih]
        simp only [size_cons] at h
        omega
      · rfl

/-- What is left behind the bytes of a beginning is the other part. -/
theorem dropBytes_size (before rest : Text) : dropBytes (size before) (before ++ rest) = some rest := by
  induction before with
  | nil => cases rest <;> simp [dropBytes]
  | cons c before ih =>
    have := c.utf8Size_pos
    rw [List.cons_append, dropBytes, if_neg (by rw [size_cons]; omega), size_cons,
      if_pos (by omega), Nat.add_sub_cancel_left, ih]

/-- A cut divides the bytes of a text. -/
theorem size_of_dropBytes {count : Nat} (h : dropBytes count text = some rest)
    (hle : count ≤ size text) : size text = count + size rest := by
  induction text generalizing count with
  | nil =>
    obtain rfl : count = 0 := by simpa using hle
    cases h
    rfl
  | cons c text ih =>
    simp only [dropBytes] at h
    split at h
    · next h0 =>
      cases h
      omega
    · split at h
      · simp only [size_cons] at hle ⊢
        have := ih h (by omega)
        omega
      · cases h

/-- The column of an offset does not depend on what comes behind that offset. -/
theorem column_append {offset : Nat} (h : offset ≤ size text) (lineStart : Nat) :
    column (text ++ more) lineStart offset = column text lineStart offset := by
  unfold column
  by_cases hl : lineStart ≤ size text
  · rw [dropBytes_append hl]
    cases hd : dropBytes lineStart text with
    | none => rfl
    | some line =>
      have hs := size_of_dropBytes hd hl
      simp only [Option.map_some]
      rw [within_append (by omega)]
  · -- the line begins behind the offset, so the column is one whatever stands there
    have h0 : offset - lineStart = 0 := by omega
    rw [h0]
    cases dropBytes lineStart (text ++ more) <;> cases dropBytes lineStart text <;> simp

end LuaSyntax.Text

namespace LuaSyntax

/-- The end of a line is one byte. -/
theorem Text.utf8Size_of_isLineEnd {c : Char} (h : isLineEnd c = true) : c.utf8Size = 1 := by
  rw [isLineEnd, Bool.or_eq_true, beq_iff_eq, beq_iff_eq] at h
  rcases h with rfl | rfl <;> rfl

/-- Walking over a text moves a place by the bytes of the text. -/
@[simp] theorem Place.offset_after (place : Place) (text : Text) :
    (place.after text).offset = place.offset + Text.size text := by
  fun_induction Place.after place text with
  | case1 => rfl
  | case2 place c hbreak => simp [Place.afterBreak, Text.utf8Size_of_isLineEnd hbreak]
  | case3 place c hbreak => simp [Place.afterChar]
  | case4 place c d rest hbreak hpair ih =>
    rw [Bool.and_eq_true] at hpair
    rw [ih]
    simp only [Place.afterBreak, Text.size_cons, Text.utf8Size_of_isLineEnd hbreak,
      Text.utf8Size_of_isLineEnd hpair.1]
    omega
  | case5 place c d rest hbreak hpair ih =>
    rw [ih]
    simp only [Place.afterBreak, Text.size_cons, Text.utf8Size_of_isLineEnd hbreak]
    omega
  | case6 place c d rest hbreak ih =>
    rw [ih]
    simp only [Place.afterChar, Text.size_cons]
    omega

/-- A position does not depend on what comes behind it. -/
theorem Position.onLine_append {text more : Text} {offset : Nat} (h : offset ≤ Text.size text)
    (line lineStart : Nat) :
    Position.onLine (text ++ more) line lineStart offset = .onLine text line lineStart offset := by
  rw [Position.onLine, Text.column_append h, Position.onLine]

/-- Where something stands does not depend on what comes behind it. -/
theorem Placement.between_append {options : ParseOptions} {text more : Text} {start stop : Place}
    (hstart : start.offset ≤ Text.size text) (hstop : stop.offset ≤ Text.size text) :
    Placement.between options (text ++ more) start stop = .between options text start stop := by
  simp only [Placement.between, Position.ofPlace, Position.onLine_append hstart,
    Position.onLine_append hstop]

end LuaSyntax
