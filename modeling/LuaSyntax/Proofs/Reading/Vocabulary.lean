import LuaSyntax.Proofs.Reading.Lexemes

/-!
# The words of a dialect

A dialect has words and symbols that others do not have, and what it reserves for a keyword can be no
name in it. Every token that is read from a source is one of its dialect.
-/

namespace LuaSyntax

/-- The feature of a dialect that a token needs to be what it is. -/
def TokenValue.feature? : TokenValue → Option Feature
  | .keyword .gotoWord => some .labels
  | .keyword .hstructureWord => some .hstructure
  | .keyword .hmakeWord => some .hmake
  | .punctuator .doubleSlash => some .integerDivision
  | .punctuator .ampersand | .punctuator .pipe | .punctuator .tilde
  | .punctuator .shiftLeft | .punctuator .shiftRight => some .bitwiseOperators
  | _ => none

namespace Dialect

variable {dialect : Dialect} {name : String}

/-- Whether a name is a reserved word: a keyword, or the word for a truth value or for nothing. -/
def Reserves (dialect : Dialect) (name : String) : Prop :=
  name ∈ ["true", "false", "nil"] ∨
    ∃ word : ReservedWord, word.reservedIn dialect = true ∧ word.spelling = name

/-- Whether a token can be one of a dialect. -/
structure Speaks (dialect : Dialect) (value : TokenValue) : Prop where
  feature : ∀ feature ∈ value.feature?, dialect.has feature = true
  name : ∀ name, value = .identifier name → ¬ dialect.Reserves name

/-- All words are in the table of reserved words. -/
theorem mem_allWords (word : ReservedWord) : word ∈ ReservedWord.all := by
  cases word <;> decide

/-- What is not found among the keywords is none. -/
theorem not_reserves_of_ofName? (hliteral : name ∉ ["true", "false", "nil"])
    (h : ReservedWord.ofName? dialect name = none) : ¬ dialect.Reserves name := by
  rintro (hmem | ⟨word, hreserved, hspelling⟩)
  · exact hliteral hmem
  · have hno := List.find?_eq_none.mp h word (mem_allWords word)
    rw [hspelling, hreserved, beq_self_eq_true] at hno
    exact hno rfl

/-- A keyword needs the feature that reserves it. -/
theorem speaks_keyword {word : ReservedWord} (h : word.reservedIn dialect = true) :
    dialect.Speaks (.keyword word) where
  feature := by
    intro feature hmem
    cases word <;> cases hmem
    · exact (Bool.and_eq_true_iff.mp h).1
    · exact h
    · exact h
  name _ heq := by cases heq

/-- A token that is no word and no symbol is one of every dialect. -/
theorem speaks_of_kind {value : TokenValue}
    (h : value.kind ∉ [TokenKind.keyword, .identifier, .punctuator]) : dialect.Speaks value where
  feature feature hmem := by
    cases value with
    | keyword => exact absurd (by simp [TokenValue.kind]) h
    | punctuator => exact absurd (by simp [TokenValue.kind]) h
    | _ => cases hmem
  name name heq := by
    rw [heq] at h
    exact absurd (by simp [TokenValue.kind]) h

/-- A dialect speaks its words. -/
theorem speaks_word (dialect : Dialect) (name : String) : dialect.Speaks (Lexeme.word dialect name) := by
  unfold Lexeme.word
  split
  · exact speaks_of_kind (by decide)
  · next htrue =>
    split
    · exact speaks_of_kind (by decide)
    · next hfalse =>
      split
      · exact speaks_of_kind (by decide)
      · next hnil =>
        split
        · next word hword =>
          have hfound := List.find?_some hword
          exact speaks_keyword (Bool.and_eq_true_iff.mp hfound).2
        · next hnone =>
          refine ⟨fun feature hmem => (by cases hmem), fun other heq => ?_⟩
          obtain rfl := TokenValue.identifier.inj heq
          refine not_reserves_of_ofName? ?_ hnone
          simp_all

/-- A symbol needs the feature that it is read with. -/
theorem speaks_symbol {c : Char} {next : Option Char} {symbol : Symbol}
    (h : Lexeme.symbol? dialect c next = some symbol) : dialect.Speaks (.punctuator symbol) where
  feature := by
    intro feature hmem
    -- without the feature, the symbol is none of those that are read
    cases symbol <;> cases hmem <;> by_contra hno <;>
      simp only [Lexeme.symbol?, Bool.not_eq_true] at h hno <;> split at h <;> simp [hno] at h <;>
        split at h <;> first | cases h | (split at h <;> cases h)
  name _ heq := by cases heq

/-- A dialect speaks what is read under it. -/
theorem speaks_of_read {options : ParseOptions} {line : Nat} {text : Text} {value : TokenValue}
    {length : Nat} (h : Lexeme.read options line text = .ok (value, length)) :
    options.dialect.Speaks value := by
  have hstring (value : String) : options.dialect.Speaks (.string value) :=
    speaks_of_kind (show TokenKind.string ∉ _ by decide)
  cases text with
  | nil =>
    cases h
    exact speaks_of_kind (by decide)
  | cons c rest =>
    cases Lexeme.read_eq_ok_iff.mp h with
    | string => exact hstring _
    | numeral => exact speaks_of_kind (show TokenKind.number ∉ _ by decide)
    | dots => exact speaks_of_kind (by decide)
    | bracket => exact hstring _
    | symbol _ hsymbol => exact speaks_symbol hsymbol
    | name _ _ hword => exact hword ▸ speaks_word _ _

end Dialect

end LuaSyntax
