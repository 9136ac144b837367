import LuaSyntax.Proofs.Reading.Apart.Numerals
import LuaSyntax.Proofs.Reading.Apart.Strings
import LuaSyntax.Proofs.Reading.Lexemes

/-!
# Lexemes that stand apart

Of all the lexemes that a text could begin with the longest is read, so which one it is may depend on what stands
behind it. But it is the same one wherever something stands behind it that keeps it apart: a space or a tab goes
on with no name, no numeral and no symbol, and what is closed by a quote or a bracket is not gone on with at all.
-/

namespace LuaSyntax

variable {text rest behind : Text}

namespace LongBracket

/-- What was found in a text is found in it whatever stands behind. -/
theorem find?_of_append {sought : Text} {place : Nat} (hne : sought ≠ [])
    (h : find? sought (text ++ rest) = some place) (hl : place + sought.length ≤ text.length) :
    find? sought text = some place := by
  induction text generalizing place with
  | nil =>
    have hpos := List.length_pos_iff.mpr hne
    rw [List.length_nil] at hl
    omega
  | cons c text ih =>
    have hsame := Text.isPrefixOf_append rest (show sought.length ≤ (c :: text).length by omega)
    rw [List.cons_append] at h hsame
    rw [find?, hsame] at h
    rw [find?]
    split at h
    · next hprefix => rw [if_pos hprefix, h]
    · next hprefix =>
      obtain ⟨before, hbefore, rfl⟩ := Option.map_eq_some_iff.mp h
      rw [List.length_cons] at hl
      rw [if_neg hprefix, ih hbefore (by omega), Option.map_some]

/-- A long bracket is the same whatever stands behind it. -/
theorem read_congr {content : Text} {length : Nat} (h : read (text ++ rest) = .bracket content length)
    (hl : length ≤ text.length) : read (text ++ behind) = .bracket content length := by
  obtain ⟨level, body, place, heq, hplace, rfl, rfl⟩ := read_eq_bracket_iff.mp h
  -- the opener stands in the text and not behind it
  obtain ⟨inside, rfl⟩ : ∃ inside, text = opener level ++ inside := by
    have hopener : opener level <+: text := by
      refine List.prefix_of_prefix_length_le ⟨body, heq.symm⟩ (List.prefix_append text rest) ?_
      rw [length_opener]
      omega
    obtain ⟨inside, hinside⟩ := hopener
    exact ⟨inside, hinside.symm⟩
  rw [List.append_assoc] at heq
  obtain rfl : inside ++ rest = body := List.append_cancel_left heq
  rw [List.length_append, length_opener] at hl
  have hbroken : Text.lineBreak (inside ++ rest) = Text.lineBreak inside := Text.lineBreak_append (by omega)
  rw [hbroken] at hplace hl ⊢
  rw [List.drop_append_of_le_length (by omega)] at hplace ⊢
  have hlength : (inside.drop (Text.lineBreak inside)).length = inside.length - Text.lineBreak inside :=
    List.length_drop
  refine read_append (read_eq_bracket_iff.mpr ⟨level, inside, place, rfl, ?_, ?_, rfl⟩)
  · exact find?_of_append (by simp [closer]) hplace (by rw [length_closer]; omega)
  · rw [List.take_append_of_le_length (by omega)]

end LongBracket

namespace Lexeme

variable {options : ParseOptions} {line : Nat} {value : TokenValue}

/-- A symbol of one character is the same before a blank and before the end. -/
theorem symbol?_apart {dialect : Dialect} {c : Char} {next : Option Char} {symbol : Symbol}
    (h : symbol? dialect c next = some symbol) (hone : symbol.spelling.length = 1) (hbehind : behind.Apart) :
    symbol? dialect c behind.head? = some symbol := by
  have hnext (d : Char) (hd : d ∈ ['.', '=', '<', '>', ':', '/']) : (behind.head? == some d) = false := by
    refine beq_eq_false_iff_ne.mpr fun heq => ?_
    have hblank := hbehind d heq
    simp only [List.mem_cons, List.not_mem_nil, or_false] at hd hblank
    rcases hblank with rfl | rfl <;> simp at hd
  simp only [symbol?] at h ⊢
  simp only [hnext _ (show '.' ∈ _ by decide), hnext _ (show '=' ∈ _ by decide), hnext _ (show '<' ∈ _ by decide),
    hnext _ (show '>' ∈ _ by decide), hnext _ (show ':' ∈ _ by decide), hnext _ (show '/' ∈ _ by decide),
    Bool.false_and, Bool.false_eq_true, if_false]
  have hlong : symbol ∉ [Symbol.doubleDot, .equal, .greaterEqual, .shiftRight, .lessEqual, .shiftLeft, .notEqual,
      .doubleColon, .doubleSlash] := by
    intro hmem
    simp only [List.mem_cons, List.not_mem_nil, or_false] at hmem
    rcases hmem with rfl | rfl | rfl | rfl | rfl | rfl | rfl | rfl | rfl <;> exact absurd hone (by decide)
  simp only [List.mem_cons, List.not_mem_nil, or_false, not_or] at hlong
  split at h <;> grind

/-- Where a numeral was read one begins with anything behind it. -/
theorem isNumeral_of_read {c : Char} {extended : Bool} {number : Float} {dialect : Dialect}
    (hnumeral : IsNumeral c (text ++ rest))
    (h : Numeral.read dialect extended (c :: (text ++ rest)) = .ok (number, (c :: text).length)) :
    IsNumeral c (text ++ behind) := by
  cases text with
  | cons d text => exact hnumeral
  | nil =>
    simp only [IsNumeral, Bool.or_eq_true, Bool.and_eq_true, beq_iff_eq] at hnumeral ⊢
    refine hnumeral.imp_right ?_
    rintro ⟨rfl, hdigit⟩
    cases rest with
    | nil => cases hdigit
    | cons digit rest =>
      have hlength := Numeral.two_le_of_dot hdigit h
      rw [List.length_singleton] at hlength
      omega

/-- Where no numeral begins none does if what is there stands apart. -/
theorem not_isNumeral_apart {c : Char} (hbehind : behind.Apart) (h : ¬ IsNumeral c (text ++ rest)) :
    ¬ IsNumeral c (text ++ behind) := by
  cases text with
  | cons d text => exact h
  | nil =>
    simp only [IsNumeral, Bool.or_eq_true, Bool.and_eq_true, not_or] at h ⊢
    refine ⟨h.1, ?_⟩
    rintro ⟨-, hdigit⟩
    cases behind with
    | nil => cases hdigit
    | cons d behind =>
      have hd : d.isDigit = true := hdigit
      rw [Numeral.blank_not_digit d (hbehind d rfl)] at hd
      cases hd

/-- What stands behind a character is the same if it is none of the characters that keep apart. -/
theorem head?_apart {c : Char} (hbehind : behind.Apart) (hc : c ∉ [' ', '\t']) (text : Text)
    (h : (text ++ behind).head? = some c) : (text ++ rest).head? = some c := by
  cases text with
  | nil => exact absurd (hbehind c h) hc
  | cons d text => exact h

/-- Where three dots stand with a text that stands apart behind the first they do with any. -/
theorem dots_apart (hbehind : behind.Apart) (text : Text) (h : (text ++ behind).take 2 = ['.', '.']) :
    (text ++ rest).take 2 = ['.', '.'] := by
  have hdot : behind.head? ≠ some '.' := fun heq => absurd (hbehind '.' heq) (by decide)
  match text with
  | [] =>
    cases behind with
    | nil => cases h
    | cons c behind => exact absurd (congrArg some (List.cons.inj h).1) hdot
  | [c] =>
    cases behind with
    | nil => cases h
    | cons d behind => exact absurd (congrArg some (List.cons.inj (List.cons.inj h).2).1) hdot
  | c :: d :: text => exact h

/-- Where nothing longer than a symbol begins nothing does if what is there stands apart. -/
theorem not_isLonger_apart {c : Char} (hbehind : behind.Apart) (h : ¬ IsLonger c (text ++ rest)) :
    ¬ IsLonger c (text ++ behind) := by
  rintro (hnumeral | ⟨hc, hdots⟩ | ⟨hc, hnext⟩)
  · exact not_isNumeral_apart hbehind (fun hnumeral => h (.inl hnumeral)) hnumeral
  · exact h (.inr (.inl ⟨hc, dots_apart hbehind text hdots⟩))
  · refine h (.inr (.inr ⟨hc, hnext.imp ?_ ?_⟩))
    · exact head?_apart hbehind (by decide) text
    · exact head?_apart hbehind (by decide) text

/-- A lexeme that ends where its text does is found as well in front of what stands apart. -/
theorem Found.apart {c : Char} {length : Nat} (h : Found options c (text ++ rest) value length)
    (hlength : length = (c :: text).length) (hbehind : behind.Apart) :
    Found options c (text ++ behind) value length := by
  cases h with
  | string hquote hread =>
    subst hlength
    exact .string hquote (@QuotedString.read_congr _ _ hquote (c :: text) rest behind _ hread)
  | numeral hnumeral hread =>
    subst hlength
    exact .numeral (isNumeral_of_read hnumeral hread) (@Numeral.read_apart _ (c :: text) rest behind hbehind _ _ _
      hread (Nat.le_add_left 1 _) (Nat.le_refl _))
  | dots hdots =>
    obtain ⟨d, e, rfl⟩ := List.length_eq_two.mp (Nat.succ.inj hlength).symm
    exact .dots hdots
  | bracket hbracket hread =>
    subst hlength
    cases text with
    | nil => exact absurd (LongBracket.length_of_read hread) (by simp)
    | cons d text =>
      exact .bracket hbracket (@LongBracket.read_congr (c :: d :: text) rest behind _ _ hread (Nat.le_refl _))
  | symbol hlonger hsymbol =>
    refine .symbol (not_isLonger_apart hbehind hlonger) ?_
    cases text with
    | nil => exact symbol?_apart hsymbol hlength hbehind
    | cons d text => exact hsymbol
  | name hstart hname hword =>
    subst hname
    have hblank : ∀ d ∈ [' ', '\t'], NameCharacter.isPart options.extendedIdentifiers d = false := by
      cases options.extendedIdentifiers <;> exact Text.forall_space_tab rfl rfl
    exact .name hstart (@Text.takeWhile_apart (c :: text) rest behind _ hbehind hblank (Nat.le_of_eq hlength)) hword

/-- A lexeme is the same with anything behind it that keeps it apart. -/
theorem read_apart (hbehind : behind.Apart) (hne : text ≠ [])
    (h : read options line (text ++ rest) = .ok (value, text.length)) (line' : Nat) :
    read options line' (text ++ behind) = .ok (value, text.length) := by
  cases text with
  | nil => exact absurd rfl hne
  | cons c text => exact read_eq_ok_iff.mpr ((read_eq_ok_iff.mp h).apart rfl hbehind)

end Lexeme

end LuaSyntax
