import LuaSyntax.Placement
import LuaSyntax.Text.Pieces
import LuaSyntax.Token.LongBracket

/-!
# Between tokens

Blanks, line breaks and comments separate tokens and mean nothing to the grammar. A comment begins
with two dashes; if a long bracket stands right behind them the comment ends with it, and otherwise
with its line. The line break is no part of a line comment.
-/

namespace LuaSyntax

/-- Something between two tokens. -/
inductive Trivium where
  | blank
  | comment (value : Text)

namespace Trivium

/-- The text up to the end of its first line. -/
def restOfLine (text : Text) : Text := text.takeWhile fun c => !(Text.isLineEnd c)

/-- Reads the comment whose text begins behind its two dashes. -/
def comment? (body : Text) : Piece Trivium Unit :=
  let line := restOfLine body
  match LongBracket.read body with
  | .absent => .item (.comment line) (line.length + 2)
  | .unfinished => .fail ()
  | .bracket content length => .item (.comment content) (length + 2)

/-- Reads what stands before a token. -/
def piece : Text → Piece Trivium Unit
  | [] => .stop
  | c :: rest =>
    if Text.isBlank c then .item .blank 1
    else if Text.isLineEnd c then .item .blank (Text.lineBreak (c :: rest))
    else if c == '-' && rest.head? == some '-' then comment? (rest.drop 1)
    else .stop

end Trivium

/-- What stands before a token: the comments, where the token begins, and its text. -/
structure Trivia where
  comments : List Comment
  stop : Place
  rest : Text
  /-- Whether the rest is a long comment that is never closed. -/
  unfinished : Bool

namespace Trivia

/-- Walks over the pieces between two tokens and keeps the comments among them. -/
def collect (options : ParseOptions) (source : Text) (place : Place) :
    List (Text × Trivium) → List Comment × Place
  | [] => ([], place)
  | (text, trivium) :: others =>
    let stop := place.after text
    let (comments, last) := collect options source stop others
    match trivium with
    | .blank => (comments, last)
    | .comment value =>
      let comment :=
        { value := String.ofList value
          raw := String.ofList text
          placement := .between options source place stop }
      (comment :: comments, last)

/-- Reads what stands before the token at a place. -/
def read (options : ParseOptions) (source : Text) (place : Place) (text : Text) : Trivia :=
  let row := pieces Trivium.piece 0 text
  let (comments, stop) := collect options source place row.found
  { comments := if options.collectComments then comments else []
    stop
    rest := text.drop row.covered.length
    unfinished := row.failure.isSome }

end Trivia

end LuaSyntax
