import LuaSyntax.Options
import LuaSyntax.Token.Basic
import LuaSyntax.Token.LongBracket
import LuaSyntax.Token.Escape
import LuaSyntax.Token.Numeral

/-!
# Lexemes

Which token stands at the front of a text. The first character nearly always decides what is read;
where it does not, one or two characters more do: a dot may begin a numeral, an operator or the
three dots, and an opening bracket a long string. Of several symbols that could be read the longest
is, among those the dialect has.
-/

namespace LuaSyntax.Lexeme

/-- A token and how many characters it has. -/
abbrev Result := Except Fault (TokenValue × Nat)

/-- The symbol that begins with a character, given the character behind it. -/
def symbol? (dialect : Dialect) (c : Char) (next : Option Char) : Option Symbol :=
  let bitwise := dialect.has .bitwiseOperators
  match c with
  | '.' => some (if next == some '.' then .doubleDot else .dot)
  | '=' => some (if next == some '=' then .equal else .assign)
  | '>' =>
    some (if next == some '=' then .greaterEqual
      else if next == some '>' && bitwise then .shiftRight else .greater)
  | '<' =>
    some (if next == some '=' then .lessEqual
      else if next == some '<' && bitwise then .shiftLeft else .less)
  | '~' => if next == some '=' then some .notEqual else if bitwise then some .tilde else none
  | ':' => some (if next == some ':' && dialect.has .labels then .doubleColon else .colon)
  | '/' => some (if next == some '/' && dialect.has .integerDivision then .doubleSlash else .slash)
  | '&' => if bitwise then some .ampersand else none
  | '|' => if bitwise then some .pipe else none
  | '[' => some .leftBracket
  | '*' => some .star
  | '^' => some .caret
  | '%' => some .percent
  | ',' => some .comma
  | '\x7b' => some .leftBrace
  | '\x7d' => some .rightBrace
  | ']' => some .rightBracket
  | '(' => some .leftParen
  | ')' => some .rightParen
  | ';' => some .semicolon
  | '#' => some .hash
  | '-' => some .minus
  | '+' => some .plus
  | _ => none

/-- The token that is spelled like a name. -/
def word (dialect : Dialect) (name : String) : TokenValue :=
  if name == "true" then .boolean true
  else if name == "false" then .boolean false
  else if name == "nil" then .nil
  else match ReservedWord.ofName? dialect name with
    | some word => .keyword word
    | none => .identifier name

/-- Reads a long string that begins on the given line. -/
def longString (line : Nat) (text : Text) : Result :=
  match LongBracket.read text with
  | .bracket content length => .ok (.string (String.ofList content), length)
  | .unfinished =>
    .error (.after text text.length .unfinishedLongString [(toString line).toList, "<eof>".toList])
  | .absent =>
    let length := Text.countWhile (· == '=') (text.drop 1) + 1
    .error (.after text length .invalidLongBracket [text.take length])

/-- Reads the token at the front of a text that begins, on the given line, with a character that is
no blank. -/
def read (options : ParseOptions) (line : Nat) (text : Text) : Result :=
  let dialect := options.dialect
  let extended := options.extendedIdentifiers
  match text with
  | [] => .ok (.endOfInput, 0)
  | c :: rest =>
    let next := rest.head?
    if c == '\'' || c == '"' then
      (QuotedString.read dialect c text).map fun (value, length) =>
        (.string (String.ofList value), length)
    else if c.isDigit || (c == '.' && next.any Char.isDigit) then
      (Numeral.read dialect extended text).map fun (value, length) => (.number value, length)
    else if c == '.' && rest.take 2 == ['.', '.'] then .ok (.vararg, 3)
    else if c == '[' && (next == some '[' || next == some '=') then longString line text
    else match symbol? dialect c next with
      | some symbol => .ok (.punctuator symbol, symbol.spelling.length)
      | none =>
        if NameCharacter.isStart extended c then
          let name := text.takeWhile (NameCharacter.isPart extended)
          .ok (word dialect (String.ofList name), name.length)
        else .error (.after text 0 .unexpectedCharacter [[c]])

end LuaSyntax.Lexeme
