import LuaSyntax.Operator
import LuaSyntax.Placement

/-!
# Trees

The tree of a chunk. Statements, expressions and what they are built of are one family of mutually
defined types, since functions hold statements and statements hold expressions. Everything that is
no statement and holds none, such as names and literals, is defined before them.

A tree keeps what a reader of the program needs and drops what only shaped the text: parentheses,
separators and empty statements leave no trace. Names carry whether they were found to be local, and
a block carries the names declared in it, if resolution was asked for.

The kind of a literal is read off its value, so there is no literal whose kind and value disagree.
-/

namespace LuaSyntax

/-! ## Leaves -/

/-- A name in the source. -/
structure Identifier where
  name : String
  /-- Whether the name was found to denote a local variable. -/
  isLocal : Bool := false
  placement : Placement
  deriving DecidableEq

/-- What a literal denotes. -/
inductive LiteralValue where
  | string (value : String)
  | number (value : Float)
  | boolean (value : Bool)
  | nil
  | vararg
  deriving DecidableEq

/-- A literal, together with how it is written. -/
structure Literal where
  value : LiteralValue
  raw : String
  placement : Placement
  deriving DecidableEq

/-- A name declared in a block. There is no identifier for a name that is declared implicitly. -/
structure Binding where
  name : String
  identifier : Option Identifier
  deriving DecidableEq

/-- A declared name with its type. -/
structure TypedIdentifier where
  name : Identifier
  type : Identifier
  placement : Placement
  deriving DecidableEq

/-- A name in a declaration of local variables. -/
inductive Declarator where
  | plain (identifier : Identifier)
  | typed (identifier : TypedIdentifier)
  deriving DecidableEq

/-- The name that is declared. -/
def Declarator.identifier : Declarator → Identifier
  | .plain identifier => identifier
  | .typed identifier => identifier.name

/-- The declaration with another identifier for its name. -/
def Declarator.withIdentifier (identifier : Identifier) : Declarator → Declarator
  | .plain _ => .plain identifier
  | .typed declared => .typed { declared with name := identifier }

/-- A parameter of a function. -/
inductive Parameter where
  | plain (identifier : Identifier)
  | typed (identifier : TypedIdentifier)
  | vararg (literal : Literal)
  deriving DecidableEq

/-- The name of a parameter; three dots have none. -/
def Parameter.identifier? : Parameter → Option Identifier
  | .plain identifier => some identifier
  | .typed declared => some declared.name
  | .vararg _ => none

/-- A field of a structure declaration. -/
structure StructureEntry where
  key : Identifier
  type : Identifier
  placement : Placement
  deriving DecidableEq

/-- What joins a member's name to what it is a member of. -/
inductive Indexer where
  | dot
  | colon
  deriving DecidableEq, Repr

/-- How an indexer is spelled. -/
def Indexer.spelling : Indexer → String
  | .dot => "."
  | .colon => ":"

/-! ## Statements and expressions -/

mutual

/-- An expression. -/
inductive Expression where
  | identifier (identifier : Identifier)
  | literal (literal : Literal)
  | function (function : Function)
  | table (table : Table)
  | binary (operator : BinaryOperator) (left right : Expression) (placement : Placement)
  | logical (operator : LogicalOperator) (left right : Expression) (placement : Placement)
  | unary (operator : UnaryOperator) (argument : Expression) (placement : Placement)
  | member (base : Expression) (indexer : Indexer) (name : Identifier) (placement : Placement)
  | index (base index : Expression) (placement : Placement)
  | call (base : Expression) (arguments : List Expression) (placement : Placement)
  | tableCall (base : Expression) (argument : Table) (placement : Placement)
  | stringCall (base : Expression) (argument : Literal) (placement : Placement)
  | make (type : Identifier) (fields : List MakeField) (placement : Placement)

/-- A table constructor. -/
inductive Table where
  | mk (fields : List TableField) (placement : Placement)

/-- A field of a table constructor. -/
inductive TableField where
  | keyed (key value : Expression) (placement : Placement)
  | named (key : Identifier) (value : Expression) (placement : Placement)
  | positional (value : Expression) (placement : Placement)

/-- A field of a structure constructor. -/
inductive MakeField where
  | mk (key : Identifier) (value : Expression) (placement : Placement)

/-- A function. Its name is an expression because a function statement may name a member. -/
inductive Function where
  | mk (name : Option Expression) (isLocal : Bool) (parameters : List Parameter) (body : Block)
    (placement : Placement)

/-- Statements with a scope of their own. -/
inductive Block where
  | mk (statements : List Statement) (scope : Option (List Binding))

/-- A clause of a conditional statement. -/
inductive Clause where
  | ifClause (condition : Expression) (body : Block) (placement : Placement)
  | elseifClause (condition : Expression) (body : Block) (placement : Placement)
  | elseClause (body : Block) (placement : Placement)

/-- A statement. -/
inductive Statement where
  | labelStatement (label : Identifier) (placement : Placement)
  | breakStatement (placement : Placement)
  | gotoStatement (label : Identifier) (placement : Placement)
  | returnStatement (arguments : List Expression) (placement : Placement)
  | ifStatement (clauses : List Clause) (placement : Placement)
  | whileStatement (condition : Expression) (body : Block) (placement : Placement)
  | doStatement (body : Block) (placement : Placement)
  | repeatStatement (body : Block) (condition : Expression) (placement : Placement)
  | localStatement (names : List Declarator) (values : List Expression)
    (placement : Placement)
  | assignment (targets values : List Expression) (placement : Placement)
  | callStatement (call : Expression) (placement : Placement)
  | functionStatement (function : Function)
  | numericFor (counter : Identifier) (start stop : Expression) (step : Option Expression)
    (body : Block) (placement : Placement)
  | genericFor (names : List Identifier) (iterators : List Expression) (body : Block)
    (placement : Placement)
  | structureDeclaration (name : Identifier) (fields : List StructureEntry)
    (placement : Placement)

end

/-- A whole source. -/
structure Chunk where
  body : Block
  /-- The comments in order, if they were collected. -/
  comments : Option (List Comment)
  /-- The names that no declaration was found for, if names were resolved. -/
  globals : Option (List Identifier)
  placement : Placement

instance : Inhabited Expression := ⟨.literal ⟨.nil, "nil", .none⟩⟩

/-! ## Parts -/

/-- The fields of a table constructor. -/
def Table.fields : Table → List TableField
  | .mk fields _ => fields

/-- The value of a table field. -/
def TableField.value : TableField → Expression
  | .keyed _ value _ => value
  | .named _ value _ => value
  | .positional value _ => value

/-- The key of a field of a structure constructor. -/
def MakeField.key : MakeField → Identifier
  | .mk key _ _ => key

/-- The value of a field of a structure constructor. -/
def MakeField.value : MakeField → Expression
  | .mk _ value _ => value

/-- The parameters of a function. -/
def Function.parameters : Function → List Parameter
  | .mk _ _ parameters _ _ => parameters

/-- The body of a function. -/
def Function.body : Function → Block
  | .mk _ _ _ body _ => body

/-- Whether a function takes arguments beyond its named parameters. -/
def Function.isVararg (function : Function) : Bool :=
  match function.parameters.getLast? with
  | some (.vararg _) => true
  | _ => false

/-- The statements of a block. -/
def Block.statements : Block → List Statement
  | .mk statements _ => statements

/-- The names declared in a block, if names were resolved. -/
def Block.scope : Block → Option (List Binding)
  | .mk _ scope => scope

/-- The condition of a clause; the last clause may have none. -/
def Clause.condition? : Clause → Option Expression
  | .ifClause condition _ _ => some condition
  | .elseifClause condition _ _ => some condition
  | .elseClause _ _ => none

/-- The statements of a clause. -/
def Clause.body : Clause → Block
  | .ifClause _ body _ => body
  | .elseifClause _ body _ => body
  | .elseClause body _ => body

/-- Whether an expression is a call. -/
def Expression.isCall : Expression → Bool
  | .call .. | .tableCall .. | .stringCall .. => true
  | _ => false

/-- Whether an expression can be assigned to. -/
def Expression.isAssignable : Expression → Bool
  | .identifier _ | .member .. | .index .. => true
  | _ => false

end LuaSyntax
