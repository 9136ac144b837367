/-!
# The message catalogue

Every way in which a source can be refused has one entry here, with a number, the stage that raises
it and a template for its wording. The numbers of the two stages do not meet: reading characters
counts from 1001, arranging tokens from 2001. The wording follows the messages that Lua itself
prints, down to the `near` clause that quotes the offending text.
-/

namespace LuaSyntax

/-- Which stage refused the source. -/
inductive Stage where
  /-- The characters form no token. -/
  | lexical
  /-- The tokens are in no order that the grammar allows. -/
  | grammatical
  deriving DecidableEq, Repr

/-- The name under which a stage is reported. -/
def Stage.name : Stage → String
  | .lexical => "LexicalError"
  | .grammatical => "SyntaxError"

/-- The reasons for refusing a source. -/
inductive Message where
  | unfinishedString
  | malformedNumber
  | decimalEscapeTooLarge
  | invalidEscape
  | hexDigitExpected
  | braceExpected
  | codePointTooLarge
  | unfinishedLongString
  | unfinishedLongComment
  | invalidLongBracket
  | unexpectedCharacter
  | unexpectedToken
  | unexpectedEnd
  | spellingExpected
  | classExpected
  | ambiguousCall
  | noLoopToBreak
  | labelAlreadyDefined
  | labelNotVisible
  | jumpIntoLocalScope
  | varargOutsideFunction
  | tooManyLevels
  deriving DecidableEq, Repr

namespace Message

/-- The catalogue in the order of its numbers. -/
def all : List Message :=
  [.unfinishedString, .malformedNumber, .decimalEscapeTooLarge, .invalidEscape, .hexDigitExpected,
    .braceExpected, .codePointTooLarge, .unfinishedLongString, .unfinishedLongComment,
    .invalidLongBracket, .unexpectedCharacter, .unexpectedToken, .unexpectedEnd, .spellingExpected,
    .classExpected, .ambiguousCall, .noLoopToBreak, .labelAlreadyDefined, .labelNotVisible,
    .jumpIntoLocalScope, .varargOutsideFunction, .tooManyLevels]

/-- The number of a message. -/
def code : Message → Nat
  | .unfinishedString => 1001
  | .malformedNumber => 1002
  | .decimalEscapeTooLarge => 1003
  | .invalidEscape => 1004
  | .hexDigitExpected => 1005
  | .braceExpected => 1006
  | .codePointTooLarge => 1007
  | .unfinishedLongString => 1008
  | .unfinishedLongComment => 1009
  | .invalidLongBracket => 1010
  | .unexpectedCharacter => 1011
  | .unexpectedToken => 2001
  | .unexpectedEnd => 2002
  | .spellingExpected => 2003
  | .classExpected => 2004
  | .ambiguousCall => 2005
  | .noLoopToBreak => 2006
  | .labelAlreadyDefined => 2007
  | .labelNotVisible => 2008
  | .jumpIntoLocalScope => 2009
  | .varargOutsideFunction => 2010
  | .tooManyLevels => 2011

/-- The stage that raises a message. -/
def stage (message : Message) : Stage :=
  if message.code < 2000 then .lexical else .grammatical

/-- The wording of a message, with holes for what it quotes. -/
def template : Message → String
  | .unfinishedString => "unfinished string near '\x7b0\x7d'"
  | .malformedNumber => "malformed number near '\x7b0\x7d'"
  | .decimalEscapeTooLarge => "decimal escape too large near '\x7b0\x7d'"
  | .invalidEscape => "invalid escape sequence near '\x7b0\x7d'"
  | .hexDigitExpected => "hexadecimal digit expected near '\x7b0\x7d'"
  | .braceExpected => "missing '\x7b0\x7d' in \\u\x7bxxxx\x7d near '\x7b1\x7d'"
  | .codePointTooLarge => "UTF-8 value too large near '\x7b0\x7d'"
  | .unfinishedLongString => "unfinished long string (starting at line \x7b0\x7d) near '\x7b1\x7d'"
  | .unfinishedLongComment => "unfinished long comment (starting at line \x7b0\x7d) near '\x7b1\x7d'"
  | .invalidLongBracket => "invalid long string delimiter near '\x7b0\x7d'"
  | .unexpectedCharacter => "unexpected symbol near '\x7b0\x7d'"
  | .unexpectedToken => "unexpected \x7b0\x7d '\x7b1\x7d' near '\x7b2\x7d'"
  | .unexpectedEnd => "unexpected symbol near '<eof>'"
  | .spellingExpected => "'\x7b0\x7d' expected near '\x7b1\x7d'"
  | .classExpected => "\x7b0\x7d expected near '\x7b1\x7d'"
  | .ambiguousCall => "ambiguous syntax (function call x new statement) near '\x7b0\x7d'"
  | .noLoopToBreak => "no loop to break near '\x7b0\x7d'"
  | .labelAlreadyDefined => "label '\x7b0\x7d' already defined on line \x7b1\x7d"
  | .labelNotVisible => "no visible label '\x7b0\x7d' for goto"
  | .jumpIntoLocalScope => "<goto \x7b0\x7d> jumps into the scope of local '\x7b1\x7d'"
  | .varargOutsideFunction => "cannot use '...' outside a vararg function near '\x7b0\x7d'"
  | .tooManyLevels => "chunk has too many syntax levels near '\x7b0\x7d'"

/-- The message of a number. -/
def ofCode? (code : Nat) : Option Message := all.find? (·.code == code)

/-- A message is found by its number. -/
theorem ofCode?_code (message : Message) : ofCode? message.code = some message := by
  cases message <;> rfl

end Message

end LuaSyntax
