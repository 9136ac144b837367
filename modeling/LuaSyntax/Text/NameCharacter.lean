import LuaSyntax.Text.NameTable

/-!
# The characters of names

A name is made of ASCII letters, digits and underscores and does not begin with a digit. A reader may
be told to extend names beyond ASCII; the characters added are then those that Unicode allows in
identifiers, and nothing changes inside ASCII.
-/

namespace LuaSyntax.NameCharacter

/-- Whether a character may begin a name. -/
def isStart (extended : Bool) (c : Char) : Bool :=
  c.isAlpha || c == '_' ||
    (extended && 0x80 ≤ c.toNat && NameTable.holds NameTable.starts c.toNat)

/-- Whether a character may go on with a name. -/
def isPart (extended : Bool) (c : Char) : Bool :=
  isStart extended c || c.isDigit ||
    (extended && 0x80 ≤ c.toNat && NameTable.holds NameTable.continuations c.toNat)

/-- What begins a name is part of one. -/
theorem isPart_of_isStart {extended : Bool} {c : Char} (h : isStart extended c = true) :
    isPart extended c = true := by
  simp [isPart, h]

end LuaSyntax.NameCharacter
