/-!
# Dialects and their features

Five dialects are read. They differ in a small number of decisions, each of which is a `Feature`;
the reader and the grammar ask for features and never for a dialect, so what a dialect is stands in
one table, `Dialect.features`. Every feature has a bit, and a dialect can be told to the outside as
the number those bits make.
-/

namespace LuaSyntax

/-- A decision on which dialects differ. -/
inductive Feature where
  /-- Labels between double colons, and `goto`. -/
  | labels
  /-- A semicolon alone is a statement. -/
  | emptyStatement
  /-- Two hexadecimal digits after `\x` in strings. -/
  | hexEscapes
  /-- `\z` in strings skips the blanks and line breaks that follow. -/
  | skipBlankEscape
  /-- Unknown escapes are errors. -/
  | strictEscapes
  /-- `break` may appear anywhere in a block. -/
  | relaxedBreak
  /-- Code points in braces after `\u` in strings. -/
  | unicodeEscapes
  /-- The operators on bits, among them the unary tilde. -/
  | bitwiseOperators
  /-- Division that rounds down, written with two slashes. -/
  | integerDivision
  /-- `goto` is a keyword only where a name follows. -/
  | contextualGoto
  /-- The numeric suffix `i`. -/
  | imaginaryNumbers
  /-- The numeric suffixes `LL` and `ULL`. -/
  | integerSuffixes
  /-- Fractions and `p` exponents in hexadecimal numerals. -/
  | hexFloats
  /-- A type after a colon in declarations and parameters. -/
  | typedIdentifiers
  /-- Structure declarations. -/
  | hstructure
  /-- Structure constructors. -/
  | hmake
  /-- The parenthesis of a call may start a new line. -/
  | flexibleLineEnd
  deriving DecidableEq, Repr

namespace Feature

/-- The position of the bit that stands for a feature. -/
def index : Feature → Nat
  | .labels => 0
  | .emptyStatement => 1
  | .hexEscapes => 2
  | .skipBlankEscape => 3
  | .strictEscapes => 4
  | .relaxedBreak => 5
  | .unicodeEscapes => 6
  | .bitwiseOperators => 7
  | .integerDivision => 8
  | .contextualGoto => 9
  | .imaginaryNumbers => 10
  | .integerSuffixes => 11
  | .hexFloats => 12
  | .typedIdentifiers => 13
  | .hstructure => 14
  | .hmake => 15
  | .flexibleLineEnd => 16

/-- The bit that stands for a feature. -/
def bit (feature : Feature) : Nat := 1 <<< feature.index

end Feature

/-- The dialects of Lua that are read. -/
inductive Dialect where
  | lua51
  | lua52
  | lua53
  | luaJit
  | havokScript51
  deriving DecidableEq, Repr, Inhabited

namespace Dialect

/-- The dialects, the oldest first. -/
def all : List Dialect := [.lua51, .lua52, .lua53, .luaJit, .havokScript51]

/-- The name of a dialect. -/
def name : Dialect → String
  | .lua51 => "5.1"
  | .lua52 => "5.2"
  | .lua53 => "5.3"
  | .luaJit => "LuaJIT"
  | .havokScript51 => "HavokScript5.1"

/-- The dialect of a name. -/
def ofName? (name : String) : Option Dialect := all.find? (·.name == name)

/-- The features that a dialect has. -/
def features : Dialect → List Feature
  | .lua51 => []
  | .lua52 =>
    [.labels, .emptyStatement, .hexEscapes, .skipBlankEscape, .strictEscapes, .relaxedBreak,
      .hexFloats, .flexibleLineEnd]
  | .lua53 =>
    [.labels, .emptyStatement, .hexEscapes, .skipBlankEscape, .strictEscapes, .relaxedBreak,
      .hexFloats, .flexibleLineEnd, .unicodeEscapes, .bitwiseOperators, .integerDivision]
  | .luaJit =>
    [.labels, .contextualGoto, .hexEscapes, .skipBlankEscape, .strictEscapes, .unicodeEscapes,
      .imaginaryNumbers, .integerSuffixes, .hexFloats]
  | .havokScript51 => [.typedIdentifiers, .hstructure, .hmake]

/-- Whether a dialect has a feature. -/
def has (dialect : Dialect) (feature : Feature) : Bool := dialect.features.contains feature

/-- The features of a dialect as one number, a bit for each. -/
def bits (dialect : Dialect) : Nat := (dialect.features.map Feature.bit).foldr (· ||| ·) 0

/-- Whether a dialect has every feature of another. -/
def extends? (dialect other : Dialect) : Bool := other.features.all dialect.has

/-- Whether `goto` is a reserved word wherever it stands. -/
def reservesGoto (dialect : Dialect) : Bool := dialect.has .labels && !dialect.has .contextualGoto

/-- A dialect is found by its name. -/
theorem ofName?_name (dialect : Dialect) : ofName? dialect.name = some dialect := by
  cases dialect <;> rfl

end Dialect

end LuaSyntax
