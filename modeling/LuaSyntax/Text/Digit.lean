/-!
# Digits

The values of decimal and hexadecimal digits. Only ASCII digits count as digits.
-/

namespace LuaSyntax.Digit

/-- The value of a decimal digit. -/
def value (digit : Char) : Nat := digit.toNat - '0'.toNat

/-- The number that a row of decimal digits denotes. -/
def decimal (digits : List Char) : Nat :=
  digits.foldl (fun number digit => number * 10 + value digit) 0

/-- The value of a hexadecimal digit, if the character is one. -/
def hex? (c : Char) : Option Nat :=
  if c.isDigit then some (value c)
  else if 'a' ≤ c && c ≤ 'f' then some (c.toNat - 'a'.toNat + 10)
  else if 'A' ≤ c && c ≤ 'F' then some (c.toNat - 'A'.toNat + 10)
  else none

/-- Whether a character is a hexadecimal digit. -/
def isHex (c : Char) : Bool := (hex? c).isSome

end LuaSyntax.Digit
