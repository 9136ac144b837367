import LuaSyntax.Grammar.Chunk

/-!
# Levels

How deep a parse may nest can be said without counting. The rules for what is nested are built level by
level, each from the one below, and at the bottom stand rules that refuse whatever they are given. So
`levels n` reads exactly what nests no deeper than `n`.
-/

namespace LuaSyntax.Grammar

open Rule

/-- A statement over the level below it, told to an observer. -/
def nestedStatement (nested : Nested) : Rule (Option Statement) := do
  match ← statement nested with
  | none => return none
  | some statement =>
    complete (.statement statement)
    return some statement

/-- The rules that read what nests one level deeper than what the given ones read. -/
def Nested.deeper (nested : Nested) : Nested :=
  { statement := nestedStatement nested
    expression := operation nested }

/-- The rules that read what nests no deeper than a number of levels. -/
def levels : Nat → Nested
  | 0 => .bottom
  | level + 1 => (levels level).deeper

end LuaSyntax.Grammar
