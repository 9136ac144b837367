import LuaSyntax.Proofs.Grammar.Accepted
import LuaSyntax.Proofs.Grammar.Grounded.Chunk

/-!
# Accepted trees are well formed

What stands where in an accepted tree is known from how the grammar keeps track of loops, functions and
labels. Which nodes and operators it has, and what names, is known from the tokens: all of them are
tokens of the dialect. Both together are the rules that every tree of a source obeys.
-/

namespace LuaSyntax

/-- What a dialect asks of the nodes of a tree: that they need no feature that it does not have, and
that no name is one of its reserved words. -/
def Demands.ofDialect (dialect : Dialect) : Demands where
  feature feature := dialect.has feature = true
  identifier identifier := ¬ dialect.Reserves identifier.name
  literal _ := True
  comment _ := True
  placement _ := True

/-- The tokens of a dialect, and trees that are made of them. -/
def Ground.ofDialect (options : ParseOptions) (source : Text) : Ground where
  options
  source
  token token := options.dialect.Speaks token.value ∧ token.start.offset ≤ token.stop.offset
  error _ := True
  demands := .ofDialect options.dialect
  ordered h := h.2
  blamed _ _ _ := trivial
  feature h := h
  word h := h.1.feature
  identifier {known _} h hname := h.1.name _ (by
    rw [Token.name?] at hname
    split at hname
    · next heq => rw [heq, Option.some.inj hname]
    · cases hname)
  renamed _ h := h
  literal _ _ := trivial
  placement _ _ _ := trivial

variable {options : ParseOptions} {source : Text} {chunk : Chunk}

/-- A lexer of a dialect reads tokens of the dialect. -/
theorem Ground.covers_ofDialect (options : ParseOptions) (source : Text) :
    (Ground.ofDialect options source).Covers fun lexer =>
      lexer.options = options ∧ ∃ text, lexer.Sited text where
  sited h := h.2
  next := by
    rintro lexer after token ⟨rfl, text, hsited⟩ hnext hend
    obtain ⟨rest, hrest, -⟩ := hsited.next hnext hend
    have hoptions : after.options = lexer.options := Lexer.options_next hsited.rest_eq hnext
    exact ⟨hoptions, rest, hrest.drain⟩
  token := by
    rintro lexer after token ⟨rfl, text, hsited⟩ hnext
    refine ⟨⟨?_, (Lexer.offset_le_of_next hsited.rest_eq hnext).2⟩, fun _ _ => trivial⟩
    obtain ⟨-, value, length, hread, rfl, -⟩ := (Lexer.next_eq_ok hsited.rest_eq).mp hnext
    exact Dialect.speaks_of_read hread
  error _ _ := trivial

/-- The chunk of an accepted source meets the demands of its dialect. -/
theorem meets_of_parse (h : parse options source = .ok chunk) :
    chunk.Meets (.ofDialect options.dialect) := by
  obtain ⟨text, hsited, -⟩ := Lexer.sited_start options source
  have hstart : (Lexer.start options source).options = options := Lexer.options_start options source
  exact ((Ground.covers_ofDialect options source).parsed ⟨hstart, text, hsited⟩).1 chunk h

/-- Every accepted tree is well formed: what may stand only in certain places stands there, and all
nodes, operators and names are those of the dialect. -/
theorem wellFormed_of_accepted (h : parse options source = .ok chunk) :
    chunk.WellFormed options.dialect options.checkGotoLabels ∧
      chunk.Meets (.ofDialect options.dialect) :=
  ⟨wellFormed_of_parse h, meets_of_parse h⟩

/-- Labels, a jump, a `break` and the operators of Lua 5.3. -/
theorem wellFormed_of_accepted_loop :
    ∃ chunk, parse { dialect := .lua53, checkGotoLabels := true }
        "while a // b do ::l:: if c then break end goto l end return f(...)".toList = .ok chunk ∧
      chunk.WellFormed .lua53 true ∧ chunk.Meets (.ofDialect .lua53) := by
  have haccepted : (parse { dialect := .lua53, checkGotoLabels := true }
      "while a // b do ::l:: if c then break end goto l end return f(...)".toList).toBool = true := by
    decide +kernel
  cases hparse : parse { dialect := .lua53, checkGotoLabels := true }
      "while a // b do ::l:: if c then break end goto l end return f(...)".toList with
  | error error =>
    rw [hparse] at haccepted
    cases haccepted
  | ok chunk => exact ⟨chunk, rfl, wellFormed_of_accepted hparse⟩

end LuaSyntax
