import LuaSyntax.Tree.Kind

/-!
# Nodes

Any node of a tree, as the role in which it is met. The same name is a `Node.identifier` where it is
met as a name and would be a `Node.expression` where it is met as an operand; who handles nodes of
all kinds can ask for the kind, the placement, or the identifier without telling roles apart.
-/

namespace LuaSyntax

/-- A node of a tree. -/
inductive Node where
  | chunk (chunk : Chunk)
  | statement (statement : Statement)
  | expression (expression : Expression)
  | identifier (identifier : Identifier)
  | literal (literal : Literal)
  | table (table : Table)
  | typedIdentifier (identifier : TypedIdentifier)
  | clause (clause : Clause)
  | tableField (field : TableField)
  | structureEntry (entry : StructureEntry)
  | makeField (field : MakeField)
  | comment (comment : Comment)

namespace Node

/-- The kind of a node. -/
def kind : Node → NodeKind
  | .chunk _ => .chunk
  | .statement node => node.kind
  | .expression node => node.kind
  | .identifier _ => .identifier
  | .literal node => node.kind
  | .table _ => .tableConstructorExpression
  | .typedIdentifier _ => .typedIdentifier
  | .clause node => node.kind
  | .tableField node => node.kind
  | .structureEntry _ => .hstructureEntry
  | .makeField _ => .hmakeValue
  | .comment _ => .comment

/-- Where a node stands. -/
def placement : Node → Placement
  | .chunk node => node.placement
  | .statement node => node.placement
  | .expression node => node.placement
  | .identifier node => node.placement
  | .literal node => node.placement
  | .table node => node.placement
  | .typedIdentifier node => node.placement
  | .clause node => node.placement
  | .tableField node => node.placement
  | .structureEntry node => node.placement
  | .makeField node => node.placement
  | .comment node => node.placement

/-- The identifier that a node is, in whichever role. -/
def identifier? : Node → Option Identifier
  | .identifier name => some name
  | .expression (.identifier name) => some name
  | _ => none

end Node

/-- What is told about a parse while it goes on. -/
inductive Event where
  /-- A node is complete; its parts were told before. -/
  | completed (node : Node)
  /-- A scope was opened. -/
  | scopeOpened
  /-- The innermost open scope was closed. -/
  | scopeClosed
  /-- A name was declared in the innermost open scope. -/
  | declared (name : String)

end LuaSyntax
