import LuaSyntax.Grammar.Rule

/-!
# Tokens of the grammar

How rules take tokens, and how they complain about the token they stand at. Every complaint of the
grammar blames a token, and it is caused by the end of the input exactly if that token is the end.
-/

namespace LuaSyntax.Grammar

/-- A token that is known by its spelling. -/
inductive Terminal where
  | word (word : ReservedWord)
  | symbol (symbol : Symbol)
  deriving DecidableEq

namespace Terminal

/-- How the token is spelled. -/
def spelling : Terminal → String
  | .word known => known.spelling
  | .symbol known => known.spelling

/-- The value of the token. -/
def value : Terminal → TokenValue
  | .word known => .keyword known
  | .symbol known => .punctuator known

instance : Coe ReservedWord Terminal := ⟨.word⟩

instance : Coe Symbol Terminal := ⟨.symbol⟩

end Terminal

namespace Rule

variable {α : Type}

/-! ## Complaints -/

/-- The error that blames a token. -/
def errorAt (source : Text) (token : Token) (message : Message) (arguments : List String) :
    ParseError :=
  { message
    arguments
    offset := token.start.offset
    position := .ofPlace source token.start
    endOfInput := token.isEnd }

/-- Blames a token. -/
def blame (token : Token) (message : Message) (arguments : List String) : Rule α := do
  fail (errorAt (← context).source token message arguments)

/-- The token that the rule stands at. -/
def current : Rule Token := do
  return (← state).token

/-- Refuses the current token without saying what should stand in its place. -/
def refuse : Rule α := do
  let token ← current
  if token.isEnd then blame token .unexpectedEnd []
  else blame token .unexpectedToken [TokenKind.describe [token.kind], token.lexeme, token.lexeme]

/-- Asks for something else than the current token. -/
def demand (wanted : String) : Rule α := do
  let token ← current
  blame token .classExpected [wanted, token.near]

/-- Complains about the current token. -/
def complain (message : Message) : Rule α := do
  let token ← current
  blame token message [token.near]

/-! ## Taking tokens -/

/-- The state with one more token taken. Comments are told before the token comes into view. -/
def shift (state : State) (delivery : Delivery) (feed : Feed) : State :=
  { state with
    feed
    taken := state.taken + 1
    previous := state.token
    token := state.lookahead
    lookahead := delivery.token
    log := (delivery.comments.map fun comment => .completed (.comment comment)).reverse ++ state.log
    comments := state.comments ++ delivery.comments }

/-- Takes the current token. -/
def advance : Rule Unit := fun _ state =>
  match state.feed.next with
  | .error error => (.error error, state)
  | .ok (delivery, feed) => (.ok (), shift state delivery feed)

/-- Whether the current token is a given one. -/
def at? (terminal : Terminal) : Rule Bool := do
  return (← current).value == terminal.value

/-- Takes the current token if it is a given one. -/
def consume (terminal : Terminal) : Rule Bool := do
  if ← at? terminal then
    advance
    return true
  else return false

/-- Takes the current token, which has to be a given one. -/
def expect (terminal : Terminal) : Rule Unit := do
  let token ← current
  if token.value == terminal.value then advance
  else blame token .spellingExpected [terminal.spelling, token.near]

end Rule

end LuaSyntax.Grammar
