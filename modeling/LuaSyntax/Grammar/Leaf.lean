import LuaSyntax.Grammar.Bookkeeping

/-!
# Leaves

Names and literals, and the names with a type that some dialects declare.
-/

namespace LuaSyntax.Grammar

open Rule

/-- A name. -/
def identifier : Rule Identifier := do
  let start ← mark
  match (← current).name? with
  | none => demand "<name>"
  | some name =>
    advance
    let identifier : Identifier := { name, placement := ← placed start }
    complete (.identifier identifier)
    return identifier

/-- A name that is used: it is local if a declaration is in force. -/
def resolved : Rule Identifier := do
  let name ← identifier
  let (_, name, scope) := (← state).scope.resolve name
  modify fun state => { state with scope }
  return name

/-- What a token denotes as a literal. -/
def literalValue? : TokenValue → Option LiteralValue
  | .string value => some (.string value)
  | .number value => some (.number value)
  | .boolean value => some (.boolean value)
  | .nil => some .nil
  | .vararg => some .vararg
  | _ => none

/-- A literal. -/
def literal : Rule Literal := do
  let start ← mark
  let token ← current
  match literalValue? token.value with
  | none => refuse
  | some value =>
    advance
    let literal : Literal := { value, raw := token.lexeme, placement := ← placed start }
    complete (.literal literal)
    return literal

/-- A name that is declared, with a type behind a colon in dialects that have them. -/
def declarator : Rule Declarator := do
  let start ← mark
  let name ← identifier
  if (← has .typedIdentifiers) && (← at? Symbol.colon) then
    advance
    let type ← identifier
    let typed : TypedIdentifier := { name, type, placement := ← placed start }
    complete (.typedIdentifier typed)
    return .typed typed
  else return .plain name

/-- A member of something, whose name was just read. -/
def member (base : Expression) (indexer : Indexer) (name : Identifier) (start : Place) :
    Rule Expression := do
  completed (.member base indexer name (← placed start))

end LuaSyntax.Grammar
