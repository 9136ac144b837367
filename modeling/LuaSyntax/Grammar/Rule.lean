import LuaSyntax.Jump
import LuaSyntax.Scope
import LuaSyntax.Token.Feed
import LuaSyntax.Tree.Node

/-!
# Rules

A rule of the grammar reads some tokens and gives what it made of them, or the first error. It sees
two tokens: the one it stands at and the one behind that; the token before is kept too, since a node
ends where it ended. Besides the tokens a rule carries what has been learnt so far, which is the
scope, the jumps of the function it is in, and the log of what was told to an observer. An error
ends the parse but keeps all that, because an observer has heard the log already and a caller may
ask whether the input was used up.

Repetition is a combinator, not recursion. A repetition stops when its body says so. Every turn takes
a token and nothing is taken twice, so there are never more turns than tokens; a repetition that goes
on behind that number, which is fixed for a whole parse, fails. How it would fail is fixed as well, and
since no error is ever given up, a parse that comes to the same whatever that error is has not met it.
-/

namespace LuaSyntax.Grammar

/-- What a parse is given. -/
structure Context where
  options : ParseOptions
  source : Text
  /-- More turns than any repetition takes. -/
  turns : Nat
  /-- How a repetition fails at a token if it goes on when it has taken all turns. -/
  overrun : Token → ParseError

/-- What a parse has come to. -/
structure State where
  feed : Feed
  /-- How many deliveries were taken from the feed. -/
  taken : Nat
  /-- The token that was taken last. -/
  previous : Token
  /-- The token that a rule stands at. -/
  token : Token
  /-- The token behind it. -/
  lookahead : Token
  /-- What was told, the latest first. -/
  log : List Event
  /-- The comments met so far, in order. -/
  comments : List Comment
  scope : Scope
  jumps : Jumps
  /-- How many statements and expressions are open, one inside the other. -/
  depth : Nat
  /-- The most that were open at once so far. Nothing depends on it. -/
  deepest : Nat

/-- A rule of the grammar. -/
def Rule (α : Type) : Type := Context → State → Except ParseError α × State

namespace Rule

variable {α β : Type}

/-- The rule that reads nothing. -/
def give (value : α) : Rule α := fun _ state => (.ok value, state)

/-- One rule and then another, unless the first fails. -/
def andThen (rule : Rule α) (next : α → Rule β) : Rule β := fun context state =>
  match rule context state with
  | (.ok value, state) => next value context state
  | (.error error, state) => (.error error, state)

instance : Monad Rule where
  pure := give
  bind := andThen

/-- A rule, and a change behind it even if the rule fails. -/
def ensuring (rule : Rule α) (change : State → State) : Rule α := fun context state =>
  let (result, state) := rule context state
  (result, change state)

/-- Fails. -/
def fail (error : ParseError) : Rule α := fun _ state => (.error error, state)

/-- Fails because all turns of a repetition were taken. -/
def overrun : Rule α := fun context state => (.error (context.overrun state.token), state)

/-- What the parse was given. -/
def context : Rule Context := fun context state => (.ok context, state)

/-- What the parse has come to. -/
def state : Rule State := fun _ state => (.ok state, state)

/-- Changes what the parse has come to. -/
def modify (change : State → State) : Rule Unit := fun _ state => (.ok (), change state)

/-- Whether the dialect has a feature. -/
def has (feature : Feature) : Rule Bool := do
  return (← context).options.has feature

end Rule

/-! ## Repetition -/

/-- What one turn of a repetition gives. -/
inductive Turn (α : Type) where
  /-- Nothing, and the repetition is over. -/
  | stop
  /-- The last item. -/
  | last (item : α)
  /-- An item that others may follow. -/
  | more (item : α)

namespace Rule

variable {α : Type}

/-- At most `fuel` turns, and the items they give. -/
def turns (turn : Rule (Turn α)) : Nat → Rule (List α)
  | 0 => overrun
  | fuel + 1 => do
    match ← turn with
    | .stop => pure []
    | .last item => pure [item]
    | .more item => return item :: (← turns turn fuel)

/-- At most `fuel` steps from a value. -/
def steps (step : α → Rule (Option α)) : Nat → α → Rule α
  | 0, _ => overrun
  | fuel + 1, value => do
    match ← step value with
    | none => pure value
    | some value => steps step fuel value

/-- Turns until one is the last. -/
def repeated (turn : Rule (Turn α)) : Rule (List α) := do
  turns turn (← context).turns

/-- Steps until one gives nothing. -/
def iterated (step : α → Rule (Option α)) (value : α) : Rule α := do
  steps step (← context).turns value

/-- Items until there is none. -/
def many (item : Rule (Option α)) : Rule (List α) :=
  repeated do
    match ← item with
    | some item => return .more item
    | none => return .stop

end Rule

end LuaSyntax.Grammar
