import LuaSyntax.Grammar.Statement

/-!
# Chunks

A chunk is a block that is followed by the end of the input. It closes the knot of the grammar: a
statement and an expression count as open while they are read, and what is nested is read by the same
rules again, unless too many are open already. Since that ends the parse, the knot needs to be tied
only as often as they may be open. Rows do not count as nesting: the number of statements in a block,
of operands in a row of operators, of suffixes or of list items is not limited.
-/

namespace LuaSyntax.Grammar

open Rule

/-- How deep statements and expressions may be nested in one another. -/
def nestingLimit : Nat := 200

/-! ## Nesting -/

/-- Counts one more that is open. -/
def State.entered (state : State) : State :=
  { state with depth := state.depth + 1, deepest := max state.deepest (state.depth + 1) }

/-- Counts one less that is open. -/
def State.left (state : State) : State := { state with depth := state.depth - 1 }

/-- Opens a statement or an expression. If there is a limit, no more may be open. -/
def enter (limit : Option Nat) : Rule Unit := do
  modify State.entered
  if limit.any (· < (← state).depth) then
    modify State.left
    complain .tooManyLevels

/-- Something that is open as long as it is read, also if that fails. -/
def nestedIn {α : Type} (limit : Option Nat) (rule : Rule α) : Rule α := do
  enter limit
  ensuring rule State.left

/-- A statement that is open as long as it is read, and is then told to an observer. -/
def openedStatement (limit : Option Nat) (nested : Nested) : Rule (Option Statement) := do
  match ← nestedIn limit (statement nested) with
  | none => return none
  | some statement =>
    complete (.statement statement)
    return some statement

/-- The rules that refuse everything, because it is nested too deep. -/
def Nested.bottom : Nested :=
  { statement := complain .tooManyLevels
    expression := fun _ => complain .tooManyLevels }

/-- The rules that open what they read, over the rules for what is nested in that. -/
def Nested.opening (limit : Option Nat) (nested : Nested) : Nested :=
  { statement := openedStatement limit nested
    expression := fun level => nestedIn limit (operation nested level) }

/-- The rules for what is nested, of which so many may be open. -/
def nestedRules (limit : Option Nat) : Nat → Nested
  | 0 => .bottom
  | fuel + 1 => (nestedRules limit fuel).opening limit

/-! ## Whole sources -/

/-- Takes the names that no declaration was found for. -/
def takeUnresolved : Rule (Option (List Identifier)) := do
  let (names, scope) := (← state).scope.takeUnresolved
  modify fun state => { state with scope }
  return names

/-- A whole source from its first token on. The empty one stands where the end of the input does. -/
def chunkBody (nested : Nested) : Rule Chunk := do
  let start ← mark
  openScope
  openBlock false
  let body ← statements nested
  closeBlock
  let scope ← closeScope
  if !(← current).isEnd then refuse
  if body.isEmpty then modify fun state => { state with previous := state.token }
  let placement ← placed start
  let globals ← takeUnresolved
  let found := (← state).comments
  let comments := if (← context).options.collectComments then some found else none
  let chunk : Chunk := { body := .mk body scope, comments, globals, placement }
  complete (.chunk chunk)
  return chunk

/-- A whole source. Its first two tokens come into view before anything else happens. -/
def chunkOver (nested : Nested) : Rule Chunk := do
  advance
  advance
  chunkBody nested

/-- A whole source in which no more may be nested than a limit allows. -/
def chunk (limit : Nat) : Rule Chunk := chunkOver (nestedRules (some limit) (limit + 1))

/-! ## Running the grammar -/

/-- How a parse went. -/
structure Outcome where
  result : Except ParseError Chunk
  /-- What was told to an observer, in order; also of a parse that failed. -/
  events : List Event
  /-- Whether the token that the parse stopped at is the end of the input. -/
  atEnd : Bool
  /-- How many deliveries the parse took from its feed. -/
  taken : Nat

/-- The state before any token is taken. -/
def State.initial (options : ParseOptions) (feed : Feed) : State :=
  let nothing := Token.endOfInput .start
  { feed
    taken := 0
    previous := nothing
    token := nothing
    lookahead := nothing
    log := []
    comments := []
    scope := { enabled := options.trackScopes }
    jumps :=
      { tracksLabels := options.has .labels
        checksTargets := options.checkGotoLabels
        allowsVararg := true }
    depth := 0
    deepest := 0 }

/-- What a parse of a feed is given. A repetition can take the deliveries of the feed and the tokens
that were taken from it in advance. None goes on behind that, so any error would do for one that did. -/
def Context.ofFeed (options : ParseOptions) (source : Text) (feed : Feed) : Context :=
  { options
    source
    turns := feed.size + 3
    overrun := fun token => errorAt source token .tooManyLevels [] }

/-- Parses a feed whose tokens stand in a source. -/
def run (options : ParseOptions) (source : Text) (feed : Feed) : Outcome :=
  let (result, state) := chunk nestingLimit (.ofFeed options source feed) (.initial options feed)
  { result, events := state.log.reverse, atEnd := state.token.isEnd, taken := state.taken }

end LuaSyntax.Grammar
