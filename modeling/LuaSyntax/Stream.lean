import LuaSyntax.Parse
import LuaSyntax.Token.Replay

/-!
# Input that arrives in pieces

A source may be handed over piece by piece. After each piece the tokens that can no longer change are
kept, and they are parsed from the beginning as if the input ended behind them. What goes wrong then
because the input ended only means that more is needed; whatever else goes wrong will go wrong however
the input goes on.

A token can change as long as nothing stands behind it, so a token that reaches the end of what has
arrived is not kept but read again when more has come. The same holds for an error that the end of the
input caused. Comments are kept with the token behind them, and only with it.

When the input is declared complete the rest of it is read and everything is parsed once more, this
time for its result and for an observer.
-/

namespace LuaSyntax

/-- What is made of the input so far. -/
inductive Progress where
  /-- The input stops in the middle of something. -/
  | needMoreInput
  /-- The input so far is a chunk. -/
  | complete
  deriving DecidableEq, Repr

/-- The name of a state of progress. -/
def Progress.name : Progress → String
  | .needMoreInput => "NeedMoreInput"
  | .complete => "Complete"

/-- A parser for input that arrives in pieces. -/
structure Stream where
  options : ParseOptions
  /-- All input so far. -/
  source : Text := []
  /-- The tokens that can no longer change. -/
  tokens : List Token := []
  /-- The comments before those tokens, each with the number of the token behind it. -/
  comments : List (Nat × Comment) := []
  /-- The place behind the last of those tokens. -/
  checkpoint : Place := .start

namespace Stream

/-- The lexer that goes on behind the tokens that are kept. As long as there are none it begins at the
beginning, where a first line may have to be passed over. -/
def lexer (stream : Stream) : Lexer :=
  if stream.checkpoint = .start then Lexer.start stream.options stream.source
  else Lexer.resume stream.options stream.source stream.checkpoint

/-- Keeps the comments that a lexer has met before the next token, and the place it stands at. -/
def keepUpTo (stream : Stream) (lexer : Lexer) : Stream :=
  { stream with
    comments := stream.comments ++ lexer.comments.map fun comment => (stream.tokens.length, comment)
    checkpoint := lexer.place }

/-- Keeps a token that a lexer has just read. -/
def keep (stream : Stream) (token : Token) (lexer : Lexer) : Stream :=
  let kept := stream.keepUpTo lexer
  { kept with tokens := kept.tokens ++ [token] }

/-- Whether a token may still change when more input comes. -/
def mayGrow (stream : Stream) (token : Token) : Bool :=
  token.isEnd || Text.size stream.source ≤ token.stop.offset

/-- Reads at most `fuel` tokens and keeps those that can no longer change. -/
def readStable : Nat → Lexer → Stream → Except ParseError Unit × Stream
  | 0, _, stream => (.ok (), stream)
  | fuel + 1, lexer, stream =>
    match lexer.next with
    | (.ok token, after) =>
      if stream.mayGrow token then (.ok (), stream)
      else readStable fuel after.drain.2 (stream.keep token after)
    | (.error error, _) => (if error.endOfInput then .ok () else .error error, stream)

/-- Reads at most `fuel` tokens up to the end of the input and keeps all of them. -/
def readRest : Nat → Lexer → Stream → Except ParseError Token × Stream
  | 0, lexer, stream => (.ok (.endOfInput lexer.place), stream)
  | fuel + 1, lexer, stream =>
    match lexer.next with
    | (.ok token, after) =>
      if token.isEnd then (.ok token, stream.keepUpTo after)
      else readRest fuel after.drain.2 (stream.keep token after)
    | (.error error, _) => (.error error, stream)

/-- The feed of the tokens that are kept, behind which the input ends with a token. -/
def feed (stream : Stream) (ending : Token) : Feed :=
  Replay.feed { tokens := stream.tokens, comments := stream.comments, ending }

/-- More tokens than are left to read. -/
def bound (stream : Stream) : Nat := stream.source.length + 1

/-- Parses what is kept, to tell input that is not finished from input that is wrong. -/
def progress (stream : Stream) : Except ParseError Progress :=
  let outcome := Grammar.run stream.options stream.source
    (stream.feed (.endOfInput stream.checkpoint))
  match outcome.result with
  | .ok _ => .ok .complete
  | .error error =>
    if error.endOfInput || outcome.atEnd then .ok .needMoreInput else .error error

/-- Adds a piece of input. Fails if no further input could make the whole a chunk. -/
def write (stream : Stream) (text : Text) : Except ParseError Progress × Stream :=
  let stream := { stream with source := stream.source ++ text }
  let (result, stream) := readStable stream.bound stream.lexer stream
  match result with
  | .ok () => (stream.progress, stream)
  | .error error => (.error error, stream)

/-- Adds the last piece of input and parses the whole, saying also what an observer was told. -/
def finish (stream : Stream) (text : Text) : Except ParseError Chunk × List Event :=
  let stream := { stream with source := stream.source ++ text }
  let (result, stream) := readRest stream.bound stream.lexer stream
  match result with
  | .ok ending =>
    let outcome := Grammar.run stream.options stream.source (stream.feed ending)
    (outcome.result, outcome.events)
  | .error error => (.error error, [])

end Stream

/-! ## Starting -/

/-- What has become of a source that was handed over first. -/
inductive Started where
  /-- It was parsed as a whole. -/
  | done (chunk : Chunk)
  /-- It was accepted so far, and more is waited for. -/
  | waiting (stream : Stream)

/-- Begins to parse a source: as a whole, or as the first piece of an input if the options say that
more is to come. -/
def start (options : ParseOptions) (source : Text) : Except ParseError Started :=
  if options.incrementalInput then
    match ({ options } : Stream).write source with
    | (.ok _, stream) => .ok (.waiting stream)
    | (.error error, _) => .error error
  else (parse options source).map .done

end LuaSyntax
