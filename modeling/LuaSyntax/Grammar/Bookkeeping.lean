import LuaSyntax.Grammar.Terminal

/-!
# What rules keep book of

Nodes are marked where they begin and placed when they are complete, observers are told of nodes,
scopes and declarations, and the jumps of the open function are checked. All of this goes along with
reading and never decides what is read, except that a jump that is not allowed ends the parse.
-/

namespace LuaSyntax.Grammar.Rule

variable {α : Type}

/-! ## Nodes -/

/-- Where a node that begins with the current token begins. -/
def mark : Rule Place := do
  return (← current).start

/-- Where a node stands that ends with the token taken last. A node never ends before it begins. -/
def placed (start : Place) : Rule Placement := do
  let context ← context
  let last := (← state).previous.stop
  return .between context.options context.source start
    { last with offset := max last.offset start.offset }

/-- Tells an observer something. -/
def tell (event : Event) : Rule Unit := modify fun state => { state with log := event :: state.log }

/-- Tells an observer of a complete node. -/
def complete (node : Node) : Rule Unit := tell (.completed node)

/-- Tells an observer of a complete expression and gives it on. -/
def completed (expression : Expression) : Rule Expression := do
  complete (.expression expression)
  return expression

/-! ## Scopes -/

/-- Opens a scope. -/
def openScope : Rule Unit := do
  if (← state).scope.enabled then
    modify fun state => { state with scope := state.scope.push }
    tell .scopeOpened

/-- Closes the innermost scope and gives the names declared in it. -/
def closeScope : Rule (Option (List Binding)) := do
  let (bindings, scope) := (← state).scope.pop
  modify fun state => { state with scope }
  if scope.enabled then tell .scopeClosed
  return bindings

/-- Declares an identifier in the innermost scope. -/
def declare (identifier : Identifier) : Rule Identifier := do
  let (declared, scope) := (← state).scope.declare identifier
  modify fun state => { state with scope }
  if scope.enabled then tell (.declared identifier.name)
  return declared

/-- Declares identifiers in order. -/
def declareAll : List Identifier → Rule (List Identifier)
  | [] => pure []
  | identifier :: rest => do
    let declared ← declare identifier
    return declared :: (← declareAll rest)

/-- Declares a name that no identifier in the source stands for. -/
def declareName (name : String) : Rule Unit := do
  modify fun state => { state with scope := state.scope.declareName name }
  if (← state).scope.enabled then tell (.declared name)

/-! ## Jumps -/

/-- Ends the parse if a jump is not allowed. -/
def checked (result : Except JumpFault α) : Rule α :=
  match result with
  | .ok value => pure value
  | .error fault => blame fault.token fault.message fault.arguments

/-- Changes what the open function knows of jumps. -/
def setJumps (jumps : Jumps) : Rule Unit := modify fun state => { state with jumps }

/-- Opens a block for jumps. -/
def openBlock (isLoop : Bool) : Rule Unit := do
  setJumps ((← state).jumps.push isLoop)

/-- Closes the innermost block for jumps. -/
def closeBlock : Rule Unit := do
  setJumps (← checked (← state).jumps.pop)

/-- Ends the parse if a jump enters the scope of a local now that the block goes on. -/
def goOn : Rule Unit := do
  checked (← state).jumps.checkDeferred

/-- Records a local for jumps. -/
def recordLocal (name : String) : Rule Unit := do
  setJumps ((← state).jumps.addLocal name)

end LuaSyntax.Grammar.Rule
