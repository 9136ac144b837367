import LuaSyntax.Grammar.Expression

/-!
# Statements

The first token of a statement nearly always says which one it is. What begins with a name or a
parenthesis is an assignment or a call, and which of the two is known only behind its first operand.

Most rules below begin behind the keyword of their statement.
-/

namespace LuaSyntax.Grammar

open Rule

variable (nested : Nested)

/-! ## Jumps -/

/-- A label behind its opening colons. -/
def labelStatement (start : Place) : Rule Statement := do
  let token ← current
  let label ← identifier
  expect Symbol.doubleColon
  setJumps (← checked ((← state).jumps.addLabel label.name token))
  return .labelStatement label (← placed start)

/-- A `goto`. -/
def gotoStatement (start : Place) : Rule Statement := do
  let token := (← state).previous
  let label ← identifier
  setJumps ((← state).jumps.addGoto label.name token)
  return .gotoStatement label (← placed start)

/-- A `break`. -/
def breakStatement (start : Place) : Rule Statement := do
  if (← state).jumps.isInLoop then return .breakStatement (← placed start)
  else complain .noLoopToBreak

/-- A `return`. -/
def returnStatement (start : Place) : Rule Statement := do
  if (← current).isWord .endWord then return .returnStatement [] (← placed start)
  else
    let arguments ← optionalList nested
    let _ ← consume Symbol.semicolon
    return .returnStatement arguments (← placed start)

/-! ## Conditions and loops -/

/-- Tells an observer of a clause and gives it on. -/
def clauseCompleted (clause : Clause) : Rule Clause := do
  complete (.clause clause)
  return clause

/-- A further condition of a conditional statement, if one stands here. -/
def elseifClause : Rule (Option Clause) := do
  let start ← mark
  if ← consume ReservedWord.elseifWord then
    let condition ← expression nested
    expect ReservedWord.thenWord
    let body ← scopedBlock nested false
    return some (← clauseCompleted (.elseifClause condition body (← placed start)))
  else return none

/-- The last clause of a conditional statement, if it has one without a condition. -/
def elseClause : Rule (List Clause) := do
  let start ← mark
  if ← consume ReservedWord.elseWord then
    let body ← scopedBlock nested false
    return [← clauseCompleted (.elseClause body (← placed start))]
  else return []

/-- A conditional statement. Its first clause begins where the statement does. -/
def ifStatement (start : Place) : Rule Statement := do
  let condition ← expression nested
  expect ReservedWord.thenWord
  let body ← scopedBlock nested false
  let first ← clauseCompleted (.ifClause condition body (← placed start))
  let others ← many (elseifClause nested)
  let last ← elseClause nested
  expect ReservedWord.endWord
  return .ifStatement (first :: others ++ last) (← placed start)

/-- A loop with its condition in front. -/
def whileStatement (start : Place) : Rule Statement := do
  let condition ← expression nested
  expect ReservedWord.doWord
  let body ← scopedBlock nested true
  expect ReservedWord.endWord
  return .whileStatement condition body (← placed start)

/-- A loop with its condition behind. The condition belongs to the block, so it sees the locals of the
block, and no jump may enter their scope. -/
def repeatStatement (start : Place) : Rule Statement := do
  openScope
  openBlock true
  let body ← statements nested
  expect ReservedWord.untilWord
  goOn
  let condition ← expression nested
  closeBlock
  let scope ← closeScope
  return .repeatStatement (.mk body scope) condition (← placed start)

/-- The block of a loop whose scope is open already. -/
def loopBody : Rule (List Statement) := do
  openBlock true
  let body ← statements nested
  closeBlock
  expect ReservedWord.endWord
  return body

/-- A loop that counts, behind its counter and the equals sign. The counter is declared behind the
header, which does not see it. -/
def numericFor (counter : Identifier) (start : Place) : Rule Statement := do
  let first ← expression nested
  expect Symbol.comma
  let last ← expression nested
  let step ← commaExpression nested
  expect ReservedWord.doWord
  openScope
  let counter ← declare counter
  let body ← loopBody nested
  let scope ← closeScope
  return .numericFor counter first last step (.mk body scope) (← placed start)

/-- A name behind a comma, if a comma stands here. -/
def commaIdentifier : Rule (Option Identifier) := do
  if ← consume Symbol.comma then return some (← identifier) else return none

/-- A loop over the values of iterators, behind its first variable. -/
def genericFor (first : Identifier) (start : Place) : Rule Statement := do
  let others ← many commaIdentifier
  expect ReservedWord.inWord
  let iterators ← expressionList nested
  expect ReservedWord.doWord
  openScope
  let names ← declareAll (first :: others)
  let body ← loopBody nested
  let scope ← closeScope
  return .genericFor names iterators (.mk body scope) (← placed start)

/-- A loop with variables of its own. -/
def forStatement (start : Place) : Rule Statement := do
  let first ← identifier
  if ← consume Symbol.assign then numericFor nested first start else genericFor nested first start

/-! ## Declarations and assignments -/

/-- A declared name, recorded for jumps. -/
def recordedDeclarator : Rule Declarator := do
  let name ← declarator
  recordLocal name.identifier.name
  return name

/-- A declared name behind a comma, if a comma stands here. -/
def commaDeclarator : Rule (Option Declarator) := do
  if ← consume Symbol.comma then return some (← recordedDeclarator) else return none

/-- Declares names with or without types. -/
def declareVariables : List Declarator → Rule (List Declarator)
  | [] => pure []
  | name :: rest => do
    let declared ← declare name.identifier
    return name.withIdentifier declared :: (← declareVariables rest)

/-- A function that is a local variable. Its own body sees it. -/
def localFunction (start : Place) : Rule Statement := do
  let name ← identifier
  recordLocal name.name
  let name ← declare name
  return .functionStatement (← functionBody nested (some (.identifier name)) true false start)

/-- A declaration of local variables. Their values do not see them. -/
def localVariables (start : Place) : Rule Statement := do
  let first ← recordedDeclarator
  let others ← many commaDeclarator
  let values ← if ← consume Symbol.assign then expressionList nested else pure []
  let names ← declareVariables (first :: others)
  return .localStatement names values (← placed start)

/-- A local declaration. -/
def localStatement (start : Place) : Rule Statement := do
  if ← consume ReservedWord.functionWord then localFunction nested start
  else localVariables nested start

/-- What an assignment or a call may begin with, and whether it is nothing but an expression in
parentheses, which can be neither. -/
def target : Rule (Expression × Bool) := do
  let start ← mark
  if (← current).kind == .identifier then
    return (← iterated (suffixStep nested start) (.identifier (← resolved)), false)
  else if ← consume Symbol.leftParen then
    let inner ← parenthesised nested
    let bare := !(startsSuffix (← current))
    return (← iterated (suffixStep nested start) inner, bare)
  else refuse

/-- One more target of an assignment and the comma behind it. -/
def targetTurn : Rule (Turn Expression) := do
  let (place, bare) ← target nested
  if bare || !place.isAssignable then refuse
  else if ← consume Symbol.comma then return .more place
  else return .last place

/-- The values of an assignment, behind its targets. -/
def assignedValues (targets : List Expression) (start : Place) : Rule Statement := do
  expect Symbol.assign
  let values ← expressionList nested
  return .assignment targets values (← placed start)

/-- An assignment or a call. -/
def assignmentOrCall (start : Place) : Rule Statement := do
  let (first, bare) ← target nested
  let more ← at? Symbol.comma
  if !bare && first.isCall && !more then return .callStatement first (← placed start)
  else if bare || !first.isAssignable then refuse
  else if more then
    advance
    assignedValues nested (first :: (← repeated (targetTurn nested))) start
  else assignedValues nested [first] start

/-- One field of a structure declaration with an optional separator behind it, unless the declaration
ends here. -/
def structureEntry : Rule (Option StructureEntry) := do
  if ← at? ReservedWord.endWord then return none
  let start ← mark
  let key ← identifier
  expect Symbol.colon
  let type ← identifier
  let entry : StructureEntry := { key, type, placement := ← placed start }
  complete (.structureEntry entry)
  if !(← consume Symbol.comma) then
    let _ ← consume Symbol.semicolon
  return some entry

/-- A structure declaration. -/
def structureDeclaration (start : Place) : Rule Statement := do
  let name ← identifier
  let fields ← many structureEntry
  expect ReservedWord.endWord
  return .structureDeclaration name fields (← placed start)

/-! ## Statements -/

/-- The statement that begins with a keyword, if one does. -/
def keywordStatement (start : Place) : ReservedWord → Option (Rule Statement)
  | .localWord => some (localStatement nested start)
  | .ifWord => some (ifStatement nested start)
  | .returnWord => some (returnStatement nested start)
  | .functionWord => some do
    let (name, isMethod) ← functionName
    return .functionStatement (← functionBody nested (some name) false isMethod start)
  | .whileWord => some (whileStatement nested start)
  | .forWord => some (forStatement nested start)
  | .repeatWord => some (repeatStatement nested start)
  | .breakWord => some (breakStatement start)
  | .doWord => some do
    let body ← scopedBlock nested false
    expect ReservedWord.endWord
    return .doStatement body (← placed start)
  | .gotoWord => some (gotoStatement start)
  | .hstructureWord => some (structureDeclaration start)
  | _ => none

/-- Whether a `goto` stands here that is a keyword only because a name follows it. -/
def atContextualGoto : Rule Bool := do
  let state ← state
  return (← has .contextualGoto) && state.token.name? == some "goto" &&
    state.lookahead.kind == .identifier

/-- A statement that is neither a label nor empty. -/
def properStatement (start : Place) : Rule Statement := do
  match (← current).value with
  | .keyword word =>
    match keywordStatement nested start word with
    | some statement =>
      advance
      statement
    | none => assignmentOrCall nested start
  | _ =>
    if ← atContextualGoto then
      advance
      gotoStatement start
    else assignmentOrCall nested start

/-- A statement; an empty one gives nothing. Labels and empty statements may follow a label that ends
its block, and every other statement shows that the block goes on. -/
def statement : Rule (Option Statement) := do
  let start ← mark
  if (← has .labels) && (← at? Symbol.doubleColon) then
    advance
    return some (← labelStatement start)
  else if (← has .emptyStatement) && (← at? Symbol.semicolon) then
    advance
    return none
  else
    goOn
    return some (← properStatement nested start)

end LuaSyntax.Grammar
