import LuaSyntax.Grammar.Chunk
import LuaSyntax.Token.Lexer

/-!
# Parsing a source

The two parts of the library joined: a source is read into a feed of tokens, and the grammar reads
the feed. An error among the characters is met when the grammar asks for the token it is in, so an
error of the grammar that lies before it comes first.
-/

namespace LuaSyntax

/-- Parses a source and says what an observer was told. -/
def parseWithEvents (options : ParseOptions) (source : Text) : Grammar.Outcome :=
  Grammar.run options source (Lexer.feed options source)

/-- Parses a source. -/
def parse (options : ParseOptions) (source : Text) : Except ParseError Chunk :=
  (parseWithEvents options source).result

end LuaSyntax
