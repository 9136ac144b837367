import LuaSyntax.Grammar.Block

/-!
# Expressions

An expression is a row of operands with operators between them, and an operand is what operators
before it and suffixes behind it make of a name, a literal, a constructor or something in
parentheses. Operators are resolved by their levels while the row is read: what is nested to the right
of an operator takes in what binds more tightly than it, and the rest is left to be combined from the
left.

Parentheses leave no node. Where they matter, namely at the beginning of a statement, the statement's
rule sees to it.
-/

namespace LuaSyntax.Grammar

open Rule

variable (nested : Nested)

/-- An expression, if one begins here. -/
def optionalExpression : Rule (Option Expression) := nested.expression 0

/-- Something that has to be an expression. -/
def required (expression : Rule (Option Expression)) : Rule Expression := do
  match ← expression with
  | some expression => return expression
  | none => demand "<expression>"

/-- An expression. -/
def expression : Rule Expression := required (optionalExpression nested)

/-- An expression behind a comma, if a comma stands here. -/
def commaExpression : Rule (Option Expression) := do
  if ← consume Symbol.comma then return some (← expression nested) else return none

/-- One or more expressions with commas between them. -/
def expressionList : Rule (List Expression) := do
  let first ← expression nested
  return first :: (← many (commaExpression nested))

/-- Any number of expressions with commas between them. -/
def optionalList : Rule (List Expression) := do
  match ← optionalExpression nested with
  | none => return []
  | some first => return first :: (← many (commaExpression nested))

/-! ## Constructors -/

/-- A field of a table, if one begins here. -/
def tableField : Rule (Option TableField) := do
  let start ← mark
  if ← consume Symbol.leftBracket then
    let key ← expression nested
    expect Symbol.rightBracket
    expect Symbol.assign
    let value ← expression nested
    return some (.keyed key value (← placed start))
  else if (← current).kind == .identifier && (← state).lookahead.isSymbol .assign then
    let key ← identifier
    advance
    let value ← expression nested
    return some (.named key value (← placed start))
  else match ← optionalExpression nested with
    | none => return none
    | some value => return some (.positional value (← placed start))

/-- One field of a table and the separator behind it. -/
def tableTurn : Rule (Turn TableField) := do
  match ← tableField nested with
  | none => return .stop
  | some field =>
    complete (.tableField field)
    if (← at? Symbol.comma) || (← at? Symbol.semicolon) then
      advance
      return .more field
    else return .last field

/-- A table constructor behind its opening brace. -/
def tableBody (start : Place) : Rule Table := do
  let fields ← repeated (tableTurn nested)
  expect Symbol.rightBrace
  let table : Table := .mk fields (← placed start)
  complete (.table table)
  return table

/-- One field of a structure constructor and the separator behind it. -/
def makeTurn : Rule (Turn MakeField) := do
  if ← at? Symbol.rightBrace then return .stop
  let start ← mark
  let key ← identifier
  expect Symbol.assign
  let value ← expression nested
  let field : MakeField := .mk key value (← placed start)
  complete (.makeField field)
  if (← at? Symbol.comma) || (← at? Symbol.semicolon) then
    advance
    return .more field
  else return .last field

/-- A structure constructor behind its keyword. -/
def makeBody (start : Place) : Rule Expression := do
  let type ← identifier
  expect Symbol.leftBrace
  let fields ← repeated (makeTurn nested)
  expect Symbol.rightBrace
  completed (.make type fields (← placed start))

/-- An operand that takes no suffix, if one begins here. -/
def primary : Rule (Option Expression) := do
  let start ← mark
  let token ← current
  if (literalValue? token.value).isSome then
    if token.kind == .vararg && !(← state).jumps.allowsVararg then
      blame token .varargOutsideFunction ["..."]
    else return some (.literal (← literal))
  else if ← consume ReservedWord.functionWord then
    let function ← functionBody nested none false false start
    return some (← completed (.function function))
  else if ← consume Symbol.leftBrace then return some (.table (← tableBody nested start))
  else if ← consume ReservedWord.hmakeWord then return some (← makeBody nested start)
  else return none

/-! ## Suffixes -/

/-- The arguments of a call, and the call. In dialects where a statement may begin with the
parenthesis, it has to stand on the line on which the function ends. -/
def callArguments (base : Expression) (start : Place) : Rule Expression := do
  let token ← current
  if token.isSymbol .leftParen then
    if !(← has .flexibleLineEnd) && token.start.line != (← state).previous.stop.line then
      blame token .ambiguousCall ["("]
    else
      advance
      let arguments ← optionalList nested
      expect Symbol.rightParen
      completed (.call base arguments (← placed start))
  else if token.isSymbol .leftBrace then
    let tableStart ← mark
    advance
    let argument ← tableBody nested tableStart
    completed (.tableCall base argument (← placed start))
  else if token.kind == .string then
    let argument ← literal
    completed (.stringCall base argument (← placed start))
  else demand "function arguments"

/-- Whether a suffix begins with a token. -/
def startsSuffix (token : Token) : Bool :=
  match token.value with
  | .string _ => true
  | .punctuator .leftBracket => true
  | .punctuator .dot => true
  | .punctuator .colon => true
  | .punctuator .leftParen => true
  | .punctuator .leftBrace => true
  | _ => false

/-- One suffix of an operand that begins at `start`. A method has to be called at once. -/
def suffix (start : Place) (base : Expression) : Rule Expression := do
  if ← consume Symbol.leftBracket then
    let index ← expression nested
    expect Symbol.rightBracket
    completed (.index base index (← placed start))
  else if ← consume Symbol.dot then
    let name ← identifier
    member base .dot name start
  else if ← consume Symbol.colon then
    let name ← identifier
    let method ← member base .colon name start
    callArguments nested method start
  else callArguments nested base start

/-- One suffix, if one begins here. -/
def suffixStep (start : Place) (base : Expression) : Rule (Option Expression) := do
  if startsSuffix (← current) then return some (← suffix nested start base) else return none

/-- What stands in parentheses, behind the opening one. -/
def parenthesised : Rule Expression := do
  let inner ← expression nested
  expect Symbol.rightParen
  return inner

/-- An operand that takes suffixes, if one begins here. -/
def suffixed : Rule (Option Expression) := do
  let start ← mark
  if (← current).kind == .identifier then
    return some (← iterated (suffixStep nested start) (.identifier (← resolved)))
  else if ← consume Symbol.leftParen then
    return some (← iterated (suffixStep nested start) (← parenthesised nested))
  else return none

/-! ## Operators -/

/-- An operand with the operators before it, if one begins here. -/
def operand (start : Place) : Rule (Option Expression) := do
  match UnaryOperator.ofToken? (← current).value with
  | some operator =>
    advance
    let argument ← required (nested.expression UnaryOperator.operandLevel)
    return some (← completed (.unary operator argument (← placed start)))
  | none =>
    match ← primary nested with
    | some expression => return some expression
    | none => suffixed nested

/-- Two operands joined by an operator. -/
def joined (operator : Operator) (left right : Expression) (placement : Placement) : Expression :=
  match operator with
  | .logical known => .logical known left right placement
  | .binary known => .binary known left right placement

/-- One operator that binds more tightly than a level, with its right operand. -/
def operatorStep (level : Nat) (start : Place) (left : Expression) : Rule (Option Expression) := do
  match Operator.ofToken? (← current).value with
  | none => return none
  | some operator =>
    if operator.level ≤ level then return none
    else
      advance
      let right ← required (nested.expression operator.rightLevel)
      return some (← completed (joined operator left right (← placed start)))

/-- An expression, as far as its operators bind more tightly than a level, if one begins here. -/
def operation (level : Nat) : Rule (Option Expression) := do
  let start ← mark
  match ← operand nested start with
  | none => return none
  | some first => return some (← iterated (operatorStep nested level start) first)

end LuaSyntax.Grammar
