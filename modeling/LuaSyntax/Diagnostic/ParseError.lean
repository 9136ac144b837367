import LuaSyntax.Diagnostic.Template
import LuaSyntax.Diagnostic.Message
import LuaSyntax.Text.Place

/-!
# Parse errors

The first reason for which a source is refused, with what it quotes and where it was found. Reading
stops there: no error is recovered from and no partial tree is handed out. The error keeps its
message and arguments apart, and its text is computed from them, so two errors that were built from
the same cause are equal without comparing any wording.

`endOfInput` is set when what went wrong is that the input ended. A caller that is still receiving
input takes such an error for a request to wait, so each place that raises an error says whether
more input could have changed its mind.
-/

namespace LuaSyntax

/-- The first fatal error of a parse. -/
structure ParseError where
  message : Message
  /-- What the holes of the message are filled with. -/
  arguments : List String
  /-- The offset of the offending token or character. -/
  offset : Nat
  position : Position
  /-- Whether the failure was caused by reaching the end of the input available so far. -/
  endOfInput : Bool
  deriving DecidableEq, Repr

namespace ParseError

/-- The stage that raised the error. -/
def stage (error : ParseError) : Stage := error.message.stage

/-- The message with its holes filled, without the position. -/
def text (error : ParseError) : String := Template.fill error.message.template error.arguments

/-- The error as it is shown to people, its position first. -/
def display (error : ParseError) : String :=
  let position := error.position.text
  let text := error.text
  s!"[{position}] {text}"

/-- Whether the characters form no token. -/
def isLexical (error : ParseError) : Bool := error.stage == .lexical

/-- Whether the tokens are in no order that the grammar allows. -/
def isGrammatical (error : ParseError) : Bool := error.stage == .grammatical

end ParseError

end LuaSyntax
