import LuaSyntax.Token.Feed
import LuaSyntax.Token.Lexeme
import LuaSyntax.Token.Trivia

/-!
# Reading tokens

A lexer stands at a place of a source and reads the token behind it. It never looks back, so a place
is all that is needed to go on reading later, in the same source or in a longer one. An error does
not stop a lexer either: it stands then where reading came to, and the next token is read from there.

A lexer can be told to stand anywhere. Behind the end it finds the end of the input. Between the
bytes of one character it finds nothing that it could read, and stays.
-/

namespace LuaSyntax

/-- A reader of tokens at a place of a source. -/
structure Lexer where
  options : ParseOptions
  source : Text
  place : Place
  /-- The text behind the place; nothing if the place is inside a character. -/
  rest : Option Text
  /-- The comments that were read and not yet taken. -/
  comments : List Comment

namespace Lexer

/-- A lexer at a place of a source. -/
def resume (options : ParseOptions) (source : Text) (place : Place) : Lexer :=
  { options, source, place, rest := Text.dropBytes place.offset source, comments := [] }

/-- A lexer behind the first line of a source if that line begins with a hash and an exclamation
mark, as the line that names a script's interpreter does. Elsewhere than at the beginning of the
source no line is special. -/
def skipShebang (lexer : Lexer) : Lexer :=
  if lexer.place.offset = 0 && lexer.source.take 2 == ['#', '!'] then
    let line := Trivium.restOfLine lexer.source
    { lexer with
      place := { lexer.place with offset := Text.size line }
      rest := some (lexer.source.drop line.length) }
  else lexer

/-- A lexer at the beginning of a source. -/
def start (options : ParseOptions) (source : Text) : Lexer :=
  (resume options source .start).skipShebang

/-- The comments read so far, and the lexer without them. -/
def drain (lexer : Lexer) : List Comment × Lexer :=
  (lexer.comments, { lexer with comments := [] })

/-- The error of a lexer that stands inside a character. -/
def misplaced (lexer : Lexer) : ParseError :=
  let offset := lexer.place.offset
  { message := .unexpectedCharacter
    arguments := [String.ofList (Text.charAt offset lexer.source).toList]
    offset
    position := .ofPlace lexer.source lexer.place
    endOfInput := false }

/-- Reads one token. -/
def next (lexer : Lexer) : Except ParseError Token × Lexer :=
  match lexer.rest with
  | none => (.error lexer.misplaced, lexer)
  | some text =>
    let trivia := Trivia.read lexer.options lexer.source lexer.place text
    let start := trivia.stop
    let fail (fault : Fault) : Except ParseError Token × Lexer :=
      (.error (fault.toError lexer.source start trivia.rest),
        { lexer with
          place := fault.stop start trivia.rest
          rest := some (trivia.rest.drop fault.read)
          comments := lexer.comments ++ trivia.comments })
    let read (value : TokenValue) (length : Nat) : Except ParseError Token × Lexer :=
      let lexeme := trivia.rest.take length
      let stop := start.after lexeme
      (.ok ⟨value, start, stop, String.ofList lexeme⟩,
        { lexer with
          place := stop
          rest := some (trivia.rest.drop length)
          comments := lexer.comments ++ trivia.comments })
    if trivia.unfinished then
      fail (.after trivia.rest trivia.rest.length .unfinishedLongComment
        [(toString start.line).toList, "<eof>".toList])
    else match Lexeme.read lexer.options start.line trivia.rest with
      | .ok (value, length) => read value length
      | .error fault => fail fault

/-- Reads at most `fuel` tokens, up to the end of the input or the first error. -/
def readAll : Nat → Lexer → Feed
  | 0, lexer => ⟨[], .ok ⟨.endOfInput lexer.place, []⟩⟩
  | fuel + 1, lexer =>
    match lexer.next with
    | (.error error, _) => ⟨[], .error error⟩
    | (.ok token, after) =>
      let (comments, after) := after.drain
      let delivery := ⟨token, comments⟩
      if token.isEnd then ⟨[], .ok delivery⟩
      else
        let feed := readAll fuel after
        { feed with deliveries := delivery :: feed.deliveries }

/-- The feed of a source. A token has at least one character, so there are no more tokens than
characters. -/
def feed (options : ParseOptions) (source : Text) : Feed :=
  readAll (source.length + 1) (start options source)

end Lexer

/-- The tokens of a source up to the end of the input, or the first error in it. -/
def tokenize (options : ParseOptions) (source : Text) : Except ParseError (List Token) :=
  (Lexer.feed options source).tokens

end LuaSyntax
