import LuaSyntax.Tree.Basic

/-!
# Kinds of nodes

The closed set of names under which nodes are reported and written. Statements, expressions, clauses
and fields have the kind of their constructor; a literal has the kind of its value; a function has
one kind wherever it stands.
-/

namespace LuaSyntax

/-- The kind of a node. -/
inductive NodeKind where
  | chunk
  | comment
  | labelStatement
  | breakStatement
  | gotoStatement
  | returnStatement
  | ifStatement
  | ifClause
  | elseifClause
  | elseClause
  | whileStatement
  | doStatement
  | repeatStatement
  | localStatement
  | assignmentStatement
  | callStatement
  | functionDeclaration
  | forNumericStatement
  | forGenericStatement
  | identifier
  | stringLiteral
  | numericLiteral
  | booleanLiteral
  | nilLiteral
  | varargLiteral
  | tableKey
  | tableKeyString
  | tableValue
  | tableConstructorExpression
  | binaryExpression
  | logicalExpression
  | unaryExpression
  | memberExpression
  | indexExpression
  | callExpression
  | tableCallExpression
  | stringCallExpression
  | typedIdentifier
  | hstructureDeclarationExpression
  | hstructureEntry
  | hmakeConstructorExpression
  | hmakeValue
  deriving DecidableEq, Repr

namespace NodeKind

/-- The name of a kind. -/
def name : NodeKind → String
  | .chunk => "Chunk"
  | .comment => "Comment"
  | .labelStatement => "LabelStatement"
  | .breakStatement => "BreakStatement"
  | .gotoStatement => "GotoStatement"
  | .returnStatement => "ReturnStatement"
  | .ifStatement => "IfStatement"
  | .ifClause => "IfClause"
  | .elseifClause => "ElseifClause"
  | .elseClause => "ElseClause"
  | .whileStatement => "WhileStatement"
  | .doStatement => "DoStatement"
  | .repeatStatement => "RepeatStatement"
  | .localStatement => "LocalStatement"
  | .assignmentStatement => "AssignmentStatement"
  | .callStatement => "CallStatement"
  | .functionDeclaration => "FunctionDeclaration"
  | .forNumericStatement => "ForNumericStatement"
  | .forGenericStatement => "ForGenericStatement"
  | .identifier => "Identifier"
  | .stringLiteral => "StringLiteral"
  | .numericLiteral => "NumericLiteral"
  | .booleanLiteral => "BooleanLiteral"
  | .nilLiteral => "NilLiteral"
  | .varargLiteral => "VarargLiteral"
  | .tableKey => "TableKey"
  | .tableKeyString => "TableKeyString"
  | .tableValue => "TableValue"
  | .tableConstructorExpression => "TableConstructorExpression"
  | .binaryExpression => "BinaryExpression"
  | .logicalExpression => "LogicalExpression"
  | .unaryExpression => "UnaryExpression"
  | .memberExpression => "MemberExpression"
  | .indexExpression => "IndexExpression"
  | .callExpression => "CallExpression"
  | .tableCallExpression => "TableCallExpression"
  | .stringCallExpression => "StringCallExpression"
  | .typedIdentifier => "TypedIdentifier"
  | .hstructureDeclarationExpression => "HstructureDeclarationExpression"
  | .hstructureEntry => "HstructureEntry"
  | .hmakeConstructorExpression => "HmakeConstructorExpression"
  | .hmakeValue => "HmakeValue"

/-- Whether nodes of a kind are literals. -/
def isLiteral : NodeKind → Bool
  | .stringLiteral | .numericLiteral | .booleanLiteral | .nilLiteral | .varargLiteral => true
  | _ => false

end NodeKind

/-- The kind of literals with that value. -/
def LiteralValue.kind : LiteralValue → NodeKind
  | .string _ => .stringLiteral
  | .number _ => .numericLiteral
  | .boolean _ => .booleanLiteral
  | .nil => .nilLiteral
  | .vararg => .varargLiteral

/-- The kind of a literal. -/
def Literal.kind (literal : Literal) : NodeKind := literal.value.kind

/-- The kind of an expression. -/
def Expression.kind : Expression → NodeKind
  | .identifier _ => .identifier
  | .literal leaf => leaf.kind
  | .function _ => .functionDeclaration
  | .table _ => .tableConstructorExpression
  | .binary .. => .binaryExpression
  | .logical .. => .logicalExpression
  | .unary .. => .unaryExpression
  | .member .. => .memberExpression
  | .index .. => .indexExpression
  | .call .. => .callExpression
  | .tableCall .. => .tableCallExpression
  | .stringCall .. => .stringCallExpression
  | .make .. => .hmakeConstructorExpression

/-- The kind of a statement. -/
def Statement.kind : Statement → NodeKind
  | .labelStatement .. => .labelStatement
  | .breakStatement .. => .breakStatement
  | .gotoStatement .. => .gotoStatement
  | .returnStatement .. => .returnStatement
  | .ifStatement .. => .ifStatement
  | .whileStatement .. => .whileStatement
  | .doStatement .. => .doStatement
  | .repeatStatement .. => .repeatStatement
  | .localStatement .. => .localStatement
  | .assignment .. => .assignmentStatement
  | .callStatement .. => .callStatement
  | .functionStatement .. => .functionDeclaration
  | .numericFor .. => .forNumericStatement
  | .genericFor .. => .forGenericStatement
  | .structureDeclaration .. => .hstructureDeclarationExpression

/-- The kind of a clause. -/
def Clause.kind : Clause → NodeKind
  | .ifClause .. => .ifClause
  | .elseifClause .. => .elseifClause
  | .elseClause .. => .elseClause

/-- The kind of a table field. -/
def TableField.kind : TableField → NodeKind
  | .keyed .. => .tableKey
  | .named .. => .tableKeyString
  | .positional .. => .tableValue

/-! ## Where nodes stand -/

/-- Where a function stands. -/
def Function.placement : Function → Placement
  | .mk _ _ _ _ placement => placement

/-- Where a table constructor stands. -/
def Table.placement : Table → Placement
  | .mk _ placement => placement

/-- Where an expression stands. -/
def Expression.placement : Expression → Placement
  | .identifier name => name.placement
  | .literal leaf => leaf.placement
  | .function inner => inner.placement
  | .table inner => inner.placement
  | .binary _ _ _ placement => placement
  | .logical _ _ _ placement => placement
  | .unary _ _ placement => placement
  | .member _ _ _ placement => placement
  | .index _ _ placement => placement
  | .call _ _ placement => placement
  | .tableCall _ _ placement => placement
  | .stringCall _ _ placement => placement
  | .make _ _ placement => placement

/-- Where a statement stands. -/
def Statement.placement : Statement → Placement
  | .labelStatement _ placement => placement
  | .breakStatement placement => placement
  | .gotoStatement _ placement => placement
  | .returnStatement _ placement => placement
  | .ifStatement _ placement => placement
  | .whileStatement _ _ placement => placement
  | .doStatement _ placement => placement
  | .repeatStatement _ _ placement => placement
  | .localStatement _ _ placement => placement
  | .assignment _ _ placement => placement
  | .callStatement _ placement => placement
  | .functionStatement function => function.placement
  | .numericFor _ _ _ _ _ placement => placement
  | .genericFor _ _ _ placement => placement
  | .structureDeclaration _ _ placement => placement

/-- Where a clause stands. -/
def Clause.placement : Clause → Placement
  | .ifClause _ _ placement => placement
  | .elseifClause _ _ placement => placement
  | .elseClause _ placement => placement

/-- Where a table field stands. -/
def TableField.placement : TableField → Placement
  | .keyed _ _ placement => placement
  | .named _ _ placement => placement
  | .positional _ placement => placement

/-- Where a field of a structure constructor stands. -/
def MakeField.placement : MakeField → Placement
  | .mk _ _ placement => placement

end LuaSyntax
