import LuaSyntax.Text.Place
import LuaSyntax.Text.Span
import LuaSyntax.Token.Kind
import LuaSyntax.Token.ReservedWord
import LuaSyntax.Token.Symbol

/-!
# Tokens

A token is a value, the two places between which it stands, and the text found there. The kind of a
token is read off its value. The end of the input is a token too: it has no text, and whoever asks
for a token behind it is given it again.
-/

namespace LuaSyntax

/-- What a token denotes. -/
inductive TokenValue where
  | endOfInput
  | string (value : String)
  | keyword (word : ReservedWord)
  | identifier (name : String)
  | number (value : Float)
  | punctuator (symbol : Symbol)
  | boolean (value : Bool)
  | nil
  | vararg
  deriving DecidableEq

/-- The kind of a token with that value. -/
def TokenValue.kind : TokenValue → TokenKind
  | .endOfInput => .endOfInput
  | .string _ => .string
  | .keyword _ => .keyword
  | .identifier _ => .identifier
  | .number _ => .number
  | .punctuator _ => .punctuator
  | .boolean _ => .boolean
  | .nil => .nil
  | .vararg => .vararg

/-- A token of a source. -/
structure Token where
  value : TokenValue
  /-- Where the token begins. -/
  start : Place
  /-- Where it ends; on a later line only for strings that span lines. -/
  stop : Place
  /-- The text between the two places. -/
  lexeme : String
  deriving DecidableEq

instance : Inhabited Token := ⟨⟨.endOfInput, .start, .start, ""⟩⟩

namespace Token

/-- The token that says that the input ends at a place. -/
def endOfInput (place : Place) : Token := ⟨.endOfInput, place, place, ""⟩

/-- The kind of a token. -/
def kind (token : Token) : TokenKind := token.value.kind

/-- The bytes between which a token stands. -/
def span (token : Token) : Span := ⟨token.start.offset, token.stop.offset⟩

/-- Whether a token says that the input ends. -/
def isEnd (token : Token) : Bool := token.value == .endOfInput

/-- Whether a token is a given symbol. -/
def isSymbol (token : Token) (symbol : Symbol) : Bool := token.value == .punctuator symbol

/-- Whether a token is a given keyword. -/
def isWord (token : Token) (word : ReservedWord) : Bool := token.value == .keyword word

/-- The name that a token is, if it is one. -/
def name? (token : Token) : Option String :=
  match token.value with
  | .identifier name => some name
  | _ => none

/-- How a message quotes the token near which something was found. -/
def near (token : Token) : String := if token.isEnd then "<eof>" else token.lexeme

end Token

end LuaSyntax
