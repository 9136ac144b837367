/-!
# Kinds of tokens

Every token belongs to one of nine kinds, and a caller may ask about several kinds at once. A set of
kinds is told to the outside as a number with one bit for each kind, so a number read from outside
gives the set of the kinds whose bits it has; other bits are ignored.
-/

namespace LuaSyntax

/-- What a token is, its value aside. -/
inductive TokenKind where
  | endOfInput
  | string
  | keyword
  | identifier
  | number
  | punctuator
  | boolean
  | nil
  | vararg
  deriving DecidableEq, Repr

namespace TokenKind

/-- The kinds in the order of their bits. -/
def all : List TokenKind :=
  [.endOfInput, .string, .keyword, .identifier, .number, .punctuator, .boolean, .nil, .vararg]

/-- The position of the bit that stands for a kind. -/
def index : TokenKind → Nat
  | .endOfInput => 0
  | .string => 1
  | .keyword => 2
  | .identifier => 3
  | .number => 4
  | .punctuator => 5
  | .boolean => 6
  | .nil => 7
  | .vararg => 8

/-- The bit that stands for a kind. -/
def bit (kind : TokenKind) : Nat := 1 <<< kind.index

/-- The name of a kind. -/
def name : TokenKind → String
  | .endOfInput => "EndOfInput"
  | .string => "String"
  | .keyword => "Keyword"
  | .identifier => "Identifier"
  | .number => "Number"
  | .punctuator => "Punctuator"
  | .boolean => "Boolean"
  | .nil => "Nil"
  | .vararg => "Vararg"

/-- The kinds whose tokens are literals. -/
def literals : List TokenKind := [.string, .number, .boolean, .nil, .vararg]

/-- The kinds whose bits a number has. -/
def ofBits (bits : Nat) : List TokenKind := all.filter fun kind => bits.testBit kind.index

/-- The number that stands for some kinds. -/
def bits (kinds : List TokenKind) : Nat := (kinds.map bit).foldr (· ||| ·) 0

/-- The word for some kinds in the message that reports an unexpected token. Of several kinds the
first that has a word of its own decides. -/
def describe (kinds : List TokenKind) : String :=
  if kinds.contains .string then "string"
  else if kinds.contains .keyword then "keyword"
  else if kinds.contains .identifier then "identifier"
  else if kinds.contains .number then "number"
  else if kinds.contains .boolean then "boolean"
  else "symbol"

end TokenKind

end LuaSyntax
