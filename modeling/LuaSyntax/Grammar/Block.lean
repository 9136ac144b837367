import LuaSyntax.Grammar.Leaf

/-!
# Blocks and functions

All nesting goes through two rules, the one for a statement and the one for an expression. What is
between them, such as a block or the body of a function, is written over a pair of such rules,
`Nested`, and so needs no recursion of its own. Which pair it is given decides how deep the input
may still go.
-/

namespace LuaSyntax.Grammar

open Rule

/-- The rules for what is nested inside the thing that is being read. -/
structure Nested where
  /-- A statement; an empty one gives nothing. -/
  statement : Rule (Option Statement)
  /-- An expression, as far as its operators bind more tightly than a level; nothing if none begins
  here. -/
  expression : Nat → Rule (Option Expression)

/-- Whether a token ends the block before it. -/
def endsBlock (token : Token) : Bool :=
  match token.value with
  | .endOfInput => true
  | .keyword .elseWord => true
  | .keyword .elseifWord => true
  | .keyword .endWord => true
  | .keyword .untilWord => true
  | _ => false

variable (nested : Nested)

/-- One statement of a block and the separator behind it. Nothing may follow a `return`, nor a
`break` in dialects that have it last only. -/
def blockTurn : Rule (Turn (Option Statement)) := do
  let token ← current
  if endsBlock token then return .stop
  let isBreak := token.isWord .breakWord
  let isLast := token.isWord .returnWord || (isBreak && !(← has .relaxedBreak))
  let statement ← nested.statement
  if isLast then
    if isBreak then
      let _ ← consume Symbol.semicolon
    return .last statement
  else
    let _ ← consume Symbol.semicolon
    return .more statement

/-- The statements of a block. -/
def statements : Rule (List Statement) := do
  return (← repeated (blockTurn nested)).filterMap id

/-- A block with a scope of its own. -/
def scopedBlock (isLoop : Bool) : Rule Block := do
  openScope
  openBlock isLoop
  let body ← statements nested
  closeBlock
  return .mk body (← closeScope)

/-! ## Functions -/

/-- A parameter with a name, declared in the scope of its function. -/
def declaredParameter : Declarator → Rule Parameter
  | .plain name => do
    return .plain (← declare name)
  | .typed typed => do
    return .typed { typed with name := ← declare typed.name }

/-- One parameter and what stands behind it. Three dots are the last parameter. -/
def parameterTurn : Rule (Turn Parameter) := do
  let token ← current
  match token.kind with
  | .identifier =>
    let parameter ← declaredParameter (← declarator)
    if ← consume Symbol.comma then return .more parameter
    else
      expect Symbol.rightParen
      return .last parameter
  | .vararg =>
    modify fun state => { state with jumps := { state.jumps with allowsVararg := true } }
    let dots ← literal
    expect Symbol.rightParen
    return .last (.vararg dots)
  | _ => demand "<name> or '...'"

/-- The parameters of a function with their parentheses. -/
def parameters : Rule (List Parameter) := do
  expect Symbol.leftParen
  if ← consume Symbol.rightParen then return []
  else repeated parameterTurn

/-- A function behind its name. Its jumps are its own, and a method has its object for a first,
unwritten parameter. -/
def functionBody (name : Option Expression) (isLocal isMethod : Bool) (start : Place) :
    Rule Function := do
  openScope
  if isMethod then declareName "self"
  let outer := (← state).jumps
  setJumps
    { tracksLabels := outer.tracksLabels
      checksTargets := outer.checksTargets
      allowsVararg := false }
  openBlock false
  let parameters ← parameters
  let body ← statements nested
  closeBlock
  setJumps outer
  expect ReservedWord.endWord
  let scope ← closeScope
  return .mk name isLocal parameters (.mk body scope) (← placed start)

/-- One more member in the name of a function. -/
def nameStep (start : Place) (base : Expression) : Rule (Option Expression) := do
  if ← consume Symbol.dot then
    let name ← identifier
    return some (← member base .dot name start)
  else return none

/-- The name of a function statement, and whether it makes the function a method. -/
def functionName : Rule (Expression × Bool) := do
  let start ← mark
  let base ← iterated (nameStep start) (.identifier (← resolved))
  if ← consume Symbol.colon then
    let name ← identifier
    return (← member base .colon name start, true)
  else return (base, false)

end LuaSyntax.Grammar
