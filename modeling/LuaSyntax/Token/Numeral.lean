import LuaSyntax.Dialect
import LuaSyntax.Text.NameCharacter
import LuaSyntax.Text.Digit
import LuaSyntax.Token.Fault

/-!
# Numerals

A numeral is decimal or hexadecimal, and denotes a 64-bit float. A decimal numeral denotes the float
nearest to its exact value. A hexadecimal one is accumulated digit by digit in float arithmetic: each
digit of the whole part multiplies by sixteen and adds, each digit of the fraction adds its share,
and the exponent multiplies by a power of two at the end. That is not the same as rounding once, and
a negative exponent divides one by the power, so the smallest floats are out of its reach.

A numeral runs as far as names do: whatever character of a name, or dot, follows it belongs to the
same lexeme and makes it malformed. The whole lexeme is blamed, but whether the text ended too soon
is decided at the character that was wrong.
-/

namespace LuaSyntax.Numeral

/-! ## Values -/

/-- A power of two; from 2 to the 1024th it is infinite. -/
def powerOfTwo (exponent : Nat) : Float :=
  if exponent < 1024 then Float.ofBits (UInt64.ofNat ((exponent + 1023) <<< 52))
  else Float.ofBits 0x7FF0000000000000

/-- The float nearest to a row of decimal digits times a power of ten. Exponents that are far beyond
the range of floats are cut short, since computing with them would take very long. -/
def decimalValue (digits : Text) (exponent : Int) : Float :=
  let mantissa := Digit.decimal digits
  let figures := (Nat.toDigits 10 mantissa).length
  if mantissa = 0 then Float.ofBits 0
  else if 400 < exponent + figures then Float.ofBits 0x7FF0000000000000
  else if exponent + figures < -400 then Float.ofBits 0
  else if exponent < 0 then Float.ofScientific mantissa true exponent.natAbs
  else Float.ofScientific mantissa false exponent.natAbs

/-- The value of a hexadecimal digit. -/
def digitValue (c : Char) : Float := Float.ofNat ((Digit.hex? c).getD 0)

/-- A value with the hexadecimal digits of a whole part behind it. -/
def addWhole (value : Float) (digits : Text) : Float :=
  digits.foldl (fun value digit => value * Float.ofNat 16 + digitValue digit) value

/-- A value with the digits of a hexadecimal fraction added, the first of them times `scale`. -/
def addFraction (value scale : Float) : Text → Float
  | [] => value
  | digit :: rest => addFraction (value + digitValue digit * scale) (scale / Float.ofNat 16) rest

/-- A value times two to an exponent. -/
def scaleBy (value : Float) (negative : Bool) (exponent : Nat) : Float :=
  if negative then value * (Float.ofNat 1 / powerOfTwo exponent) else value * powerOfTwo exponent

/-! ## Shapes -/

/-- A numeral without its suffix. -/
structure Figure where
  value : Float
  /-- Whether it has a dot or an exponent. -/
  fractional : Bool
  /-- How many characters it has. -/
  length : Nat

/-- A figure, or how many characters were read before something was missing. -/
abbrev Result := Except Nat Figure

/-- An exponent as it is written: the number of characters up to its digits, its sign and its
digits. -/
structure Exponent where
  lead : Nat
  negative : Bool
  digits : Text

/-- The exponent behind one of two letters, if one of them stands at the front of a text. -/
def exponent? (lower upper : Char) : Text → Option Exponent
  | [] => none
  | c :: rest =>
    if c == lower || c == upper then
      match rest with
      | '-' :: more => some ⟨2, true, more.takeWhile Char.isDigit⟩
      | '+' :: more => some ⟨2, false, more.takeWhile Char.isDigit⟩
      | _ => some ⟨1, false, rest.takeWhile Char.isDigit⟩
    else none

/-- The digits behind a dot, if one stands at the front of a text. -/
def fraction? (isDigit : Char → Bool) : Text → Option Text
  | '.' :: rest => some (rest.takeWhile isDigit)
  | _ => none

/-- How many characters a fraction has, its dot among them. -/
def fractionLength (fraction : Option Text) : Nat := (fraction.map (·.length + 1)).getD 0

/-- Reads a decimal numeral. -/
def readDecimal (text : Text) : Result :=
  let whole := text.takeWhile Char.isDigit
  let fraction := fraction? Char.isDigit (text.drop whole.length)
  let length := whole.length + fractionLength fraction
  let digits := whole ++ fraction.getD []
  let places : Int := (fraction.getD []).length
  match exponent? 'e' 'E' (text.drop length) with
  | none => .ok ⟨decimalValue digits (-places), fraction.isSome, length⟩
  | some ⟨lead, negative, power⟩ =>
    if power.isEmpty then .error (length + lead)
    else
      let power' : Int := Digit.decimal power
      let exponent := if negative then -power' else power'
      .ok ⟨decimalValue digits (exponent - places), true, length + lead + power.length⟩

/-- Reads a hexadecimal numeral; `floats` says whether it may have a fraction and an exponent. -/
def readHexadecimal (floats : Bool) (text : Text) : Result :=
  let whole := (text.drop 2).takeWhile Digit.isHex
  let fraction := if floats then fraction? Digit.isHex (text.drop (whole.length + 2)) else none
  let length := whole.length + 2 + fractionLength fraction
  if (whole ++ fraction.getD []).isEmpty then .error length
  else
    let value := addFraction (addWhole (Float.ofNat 0) whole) (Float.ofNat 1 / Float.ofNat 16)
      (fraction.getD [])
    match (if floats then exponent? 'p' 'P' (text.drop length) else none) with
    | none => .ok ⟨value, fraction.isSome, length⟩
    | some ⟨lead, negative, power⟩ =>
      if power.isEmpty then .error (length + lead)
      else
        .ok ⟨scaleBy value negative (Digit.decimal power), true, length + lead + power.length⟩

/-- Whether a numeral is hexadecimal. -/
def isHexadecimal : Text → Bool
  | '0' :: c :: _ => c == 'x' || c == 'X'
  | _ => false

/-- Reads a numeral without its suffix. -/
def readFigure (dialect : Dialect) (text : Text) : Result :=
  if isHexadecimal text then readHexadecimal (dialect.has .hexFloats) text else readDecimal text

/-! ## Suffixes -/

/-- How many characters the suffix of an imaginary number has. -/
def imaginarySuffix (dialect : Dialect) (text : Text) : Nat :=
  match text with
  | c :: _ => if dialect.has .imaginaryNumbers && (c == 'i' || c == 'I') then 1 else 0
  | [] => 0

/-- Whether a character is the letter of an integer suffix. -/
def isLong (c : Option Char) : Bool := c == some 'l' || c == some 'L'

/-- How many characters the suffix of an integer has; nothing when one is begun and not finished. -/
def integerSuffix (dialect : Dialect) (text : Text) : Option Nat :=
  if dialect.has .integerSuffixes then
    let c := text[0]?
    if c == some 'u' || c == some 'U' then
      if isLong text[1]? && isLong text[2]? then some 3 else none
    else if isLong c then
      if isLong text[1]? then some 2 else none
    else some 0
  else some 0

/-! ## Numerals -/

/-- Whether a character goes on with the lexeme of a numeral. -/
def runsOn (extended : Bool) (c : Char) : Bool := NameCharacter.isPart extended c || c == '.'

/-- The fault of a numeral that is wrong after `read` characters. -/
def malformed (extended : Bool) (text : Text) (read : Nat) : Fault :=
  let whole := read + Text.countWhile (runsOn extended) (text.drop read)
  { message := .malformedNumber
    arguments := [String.ofList (text.take whole)]
    read := whole
    blamesStart := true
    endOfInput := (text.drop read).isEmpty }

/-- Reads the numeral at the front of a text: the number, and how many characters it has; or how
many characters were read before it went wrong. -/
def recognise (dialect : Dialect) (extended : Bool) (text : Text) : Except Nat (Float × Nat) := do
  let figure ← readFigure dialect text
  let imaginary := imaginarySuffix dialect (text.drop figure.length)
  let length := figure.length + imaginary
  match integerSuffix dialect (text.drop length) with
  | none => .error length
  | some integer =>
    let length := length + integer
    if integer != 0 && (imaginary != 0 || figure.fractional) then .error length
    else if (text.drop length).head?.any (runsOn extended) then .error length
    else .ok (figure.value, length)

/-- Reads the numeral at the front of a text: the number, and how many characters it has. -/
def read (dialect : Dialect) (extended : Bool) (text : Text) : Except Fault (Float × Nat) :=
  (recognise dialect extended text).mapError (malformed extended text)

end LuaSyntax.Numeral
