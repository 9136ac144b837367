import LuaSyntax.Dialect
import LuaSyntax.Text.Digit
import LuaSyntax.Text.Pieces
import LuaSyntax.Text.Utf8
import LuaSyntax.Token.Fault

/-!
# Quoted strings

A quoted string is a row of pieces between two equal quotes. A piece is a plain character, which
stands for its UTF-8 bytes, or an escape, which stands for the bytes it names. Which escapes there
are is the dialect's decision, and so is what an unknown one means: an error, or the character
behind the backslash.

A string is unfinished when its line ends, or the text does, before the closing quote. That is one
fault for the whole string and quotes all of it; a fault in an escape quotes the escape only.
-/

namespace LuaSyntax

namespace Escape

/-- The byte that a letter or quote behind a backslash stands for in every dialect. -/
def simple? : Char → Option UInt8
  | 'a' => some 0x07
  | 'b' => some 0x08
  | 'f' => some 0x0C
  | 'n' => some 0x0A
  | 'r' => some 0x0D
  | 't' => some 0x09
  | 'v' => some 0x0B
  | '\\' => some 0x5C
  | '"' => some 0x22
  | '\'' => some 0x27
  | _ => none

/-- The code point that the hexadecimal digits at the front of a text denote, going on from a value,
and how many digits there are. Fails with the number of digits read when the value leaves Unicode. -/
def codePoint (value : Nat) : Text → Except Nat (Nat × Nat)
  | [] => .ok (value, 0)
  | c :: rest =>
    match Digit.hex? c with
    | none => .ok (value, 0)
    | some digit =>
      let value := value * 16 + digit
      if 0x10FFFF < value then .error 1
      else match codePoint value rest with
        | .ok (value, count) => .ok (value, count + 1)
        | .error count => .error (count + 1)

/-- What an escape gives: its bytes and the number of its characters, the backslash among them. -/
abbrev Result := Except Fault (List UInt8 × Nat)

/-- A fault after `read` characters of an escape. It quotes them and those that the next `ahead`
bytes touch. -/
def fault (text : Text) (read ahead : Nat) (message : Message) (before : List Text) : Fault :=
  .after text read message (before ++ [text.take read ++ Text.covering ahead (text.drop read)])

/-- An escape by at most three decimal digits. -/
def readDecimal (text : Text) : Result :=
  let digits := ((text.drop 1).take 3).takeWhile Char.isDigit
  let value := Digit.decimal digits
  if 255 < value then .error (fault text (digits.length + 1) 0 .decimalEscapeTooLarge [])
  else .ok ([UInt8.ofNat value], digits.length + 1)

/-- An escape by two hexadecimal digits. -/
def readHex (text : Text) : Result :=
  let after := text.drop 2
  match (after.take 2).map Digit.hex? with
  | [some high, some low] => .ok ([UInt8.ofNat (high * 16 + low)], 4)
  | _ =>
    .error { fault text 2 2 .hexDigitExpected [] with endOfInput := Text.size after < 2 }

/-- An escape by a code point in braces. -/
def readCodePoint (text : Text) : Result :=
  if (text.drop 2).head? != some '\x7b' then .error (fault text 2 1 .braceExpected [['\x7b']])
  else if ((text.drop 3).head?.bind Digit.hex?).isNone then
    .error (fault text 3 1 .hexDigitExpected [])
  else match codePoint 0 (text.drop 3) with
    | .error count => .error (fault text (count + 3) 0 .codePointTooLarge [])
    | .ok (value, count) =>
      if (text.drop (count + 3)).head? != some '\x7d' then
        .error (fault text (count + 3) 1 .braceExpected [['\x7d']])
      else .ok (Utf8.encode value, count + 4)

/-- Reads the escape at the front of a text that begins with a backslash and goes on. -/
def read (dialect : Dialect) (text : Text) : Result :=
  match text.drop 1 with
  | [] => .ok ([], 1)
  | c :: rest =>
    match simple? c with
    | some byte => .ok ([byte], 2)
    | none =>
      if Text.isLineEnd c then .ok ([0x0A], 1 + Text.lineBreak (c :: rest))
      else if c.isDigit then readDecimal text
      else if c == 'z' && dialect.has .skipBlankEscape then
        .ok ([], 2 + Text.countWhile (fun d => Text.isBlank d || Text.isLineEnd d) rest)
      else if c == 'x' && dialect.has .hexEscapes then readHex text
      else if c == 'u' && dialect.has .unicodeEscapes then readCodePoint text
      else if dialect.has .strictEscapes then .error (fault text 1 1 .invalidEscape [])
      else .ok (Utf8.encode c.toNat, 2)

end Escape

namespace QuotedString

/-- Reads the piece at the front of a string's content. -/
def piece (dialect : Dialect) (quote : Char) : Text → Piece (List UInt8) Fault
  | [] => .stop
  | c :: rest =>
    if c == quote || Text.isLineEnd c then .stop
    else if c == '\\' then
      if rest.isEmpty then .stop
      else match Escape.read dialect (c :: rest) with
        | .ok (bytes, length) => .item bytes length
        | .error fault => .fail fault
    else .item (Utf8.encode c.toNat) 1

/-- Reads the string at the front of a text that begins with its quote: the text it stands for, and
how many characters it has. -/
def read (dialect : Dialect) (quote : Char) (text : Text) : Except Fault (Text × Nat) :=
  let body := text.drop 1
  let content := pieces (piece dialect quote) 0 body
  let length := content.covered.length
  match content.failure with
  | some fault => .error (fault.shift (length + 1))
  | none =>
    match body.drop length with
    | c :: _ =>
      if c == quote then .ok (Utf8.readable content.values.flatten, length + 2)
      else
        let read := if c == '\\' then length + 2 else length + 1
        .error (.after text read .unfinishedString [text.take read])
    | [] => .error (.after text (length + 1) .unfinishedString [text.take (length + 1)])

end QuotedString

end LuaSyntax
