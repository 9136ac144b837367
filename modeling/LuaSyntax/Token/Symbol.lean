/-!
# Punctuation

The operators and separators that are not spelled as words. Three dots are no member: they are read
as a literal that stands for the arguments that a function was given beyond its parameters.
-/

namespace LuaSyntax

/-- An operator or separator. -/
inductive Symbol where
  | plus
  | minus
  | star
  | slash
  | doubleSlash
  | caret
  | percent
  | hash
  | ampersand
  | tilde
  | pipe
  | shiftLeft
  | shiftRight
  | equal
  | notEqual
  | lessEqual
  | greaterEqual
  | less
  | greater
  | assign
  | dot
  | doubleDot
  | colon
  | doubleColon
  | comma
  | semicolon
  | leftParen
  | rightParen
  | leftBrace
  | rightBrace
  | leftBracket
  | rightBracket
  deriving DecidableEq, Repr

/-- How a symbol is spelled. -/
def Symbol.spelling : Symbol → String
  | .plus => "+"
  | .minus => "-"
  | .star => "*"
  | .slash => "/"
  | .doubleSlash => "//"
  | .caret => "^"
  | .percent => "%"
  | .hash => "#"
  | .ampersand => "&"
  | .tilde => "~"
  | .pipe => "|"
  | .shiftLeft => "<<"
  | .shiftRight => ">>"
  | .equal => "=="
  | .notEqual => "~="
  | .lessEqual => "<="
  | .greaterEqual => ">="
  | .less => "<"
  | .greater => ">"
  | .assign => "="
  | .dot => "."
  | .doubleDot => ".."
  | .colon => ":"
  | .doubleColon => "::"
  | .comma => ","
  | .semicolon => ";"
  | .leftParen => "("
  | .rightParen => ")"
  | .leftBrace => "\x7b"
  | .rightBrace => "\x7d"
  | .leftBracket => "["
  | .rightBracket => "]"

end LuaSyntax
