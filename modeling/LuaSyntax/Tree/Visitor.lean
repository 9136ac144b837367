import LuaSyntax.Tree.Basic

/-!
# Walking over a tree

A visitor says what it sees at the leaves of a tree and may take a statement, an expression, a
function, a table or a typed name as a whole, in which case the walk does not go into it. The walk
gathers what is seen into one list, in the order in which a program is run rather than written where
the two differ: the values of a declaration come before its names, the header of a loop before the
names that the loop declares.
-/

namespace LuaSyntax

/-- What is seen on a walk. Where a whole node gives nothing, the walk goes into it. -/
structure Visitor (ω : Type) where
  identifier : Identifier → List ω := fun _ => []
  literal : Literal → List ω := fun _ => []
  typedIdentifier : TypedIdentifier → Option (List ω) := fun _ => none
  table : Table → Option (List ω) := fun _ => none
  function : Function → Option (List ω) := fun _ => none
  expression : Expression → Option (List ω) := fun _ => none
  statement : Statement → Option (List ω) := fun _ => none

namespace Visitor

variable {ω : Type} (visitor : Visitor ω)

/-- What is seen at a name with a type. -/
def ofTyped (typed : TypedIdentifier) : List ω :=
  (visitor.typedIdentifier typed).getD
    (visitor.identifier typed.name ++ visitor.identifier typed.type)

/-- What is seen at a declared name. -/
def ofDeclarator : Declarator → List ω
  | .plain identifier => visitor.identifier identifier
  | .typed typed => visitor.ofTyped typed

/-- What is seen at a parameter. -/
def ofParameter : Parameter → List ω
  | .plain identifier => visitor.identifier identifier
  | .typed typed => visitor.ofTyped typed
  | .vararg literal => visitor.literal literal

/-- What is seen at a field of a structure declaration. -/
def ofEntry (entry : StructureEntry) : List ω :=
  visitor.identifier entry.key ++ visitor.identifier entry.type

mutual

/-- What is seen in an expression. -/
def ofExpression (expression : Expression) : List ω :=
  (visitor.expression expression).getD <|
    match expression with
    | .identifier identifier => visitor.identifier identifier
    | .literal literal => visitor.literal literal
    | .function function => ofFunction function
    | .table table => ofTable table
    | .binary _ left right _ => ofExpression left ++ ofExpression right
    | .logical _ left right _ => ofExpression left ++ ofExpression right
    | .unary _ argument _ => ofExpression argument
    | .member base _ name _ => ofExpression base ++ visitor.identifier name
    | .index base index _ => ofExpression base ++ ofExpression index
    | .call base arguments _ => ofExpression base ++ ofExpressions arguments
    | .tableCall base argument _ => ofExpression base ++ ofTable argument
    | .stringCall base argument _ => ofExpression base ++ visitor.literal argument
    | .make type fields _ => visitor.identifier type ++ ofMakeFields fields

/-- What is seen in some expressions. -/
def ofExpressions : List Expression → List ω
  | [] => []
  | expression :: rest => ofExpression expression ++ ofExpressions rest

/-- What is seen in an expression that may be absent. -/
def ofExpression? : Option Expression → List ω
  | none => []
  | some expression => ofExpression expression

/-- What is seen in a table. -/
def ofTable (table : Table) : List ω :=
  (visitor.table table).getD <|
    match table with
    | .mk fields _ => ofTableFields fields

/-- What is seen in a table field. -/
def ofTableField : TableField → List ω
  | .keyed key value _ => ofExpression key ++ ofExpression value
  | .named key value _ => visitor.identifier key ++ ofExpression value
  | .positional value _ => ofExpression value

/-- What is seen in some table fields. -/
def ofTableFields : List TableField → List ω
  | [] => []
  | field :: rest => ofTableField field ++ ofTableFields rest

/-- What is seen in a field of a structure constructor. -/
def ofMakeField : MakeField → List ω
  | .mk key value _ => visitor.identifier key ++ ofExpression value

/-- What is seen in some fields of a structure constructor. -/
def ofMakeFields : List MakeField → List ω
  | [] => []
  | field :: rest => ofMakeField field ++ ofMakeFields rest

/-- What is seen in a function. -/
def ofFunction (function : Function) : List ω :=
  (visitor.function function).getD <|
    match function with
    | .mk name _ parameters body _ =>
      ofExpression? name ++ parameters.flatMap visitor.ofParameter ++ ofBlock body

/-- What is seen in a block. -/
def ofBlock : Block → List ω
  | .mk statements _ => ofStatements statements

/-- What is seen in a clause. -/
def ofClause : Clause → List ω
  | .ifClause condition body _ => ofExpression condition ++ ofBlock body
  | .elseifClause condition body _ => ofExpression condition ++ ofBlock body
  | .elseClause body _ => ofBlock body

/-- What is seen in some clauses. -/
def ofClauses : List Clause → List ω
  | [] => []
  | clause :: rest => ofClause clause ++ ofClauses rest

/-- What is seen in a statement. -/
def ofStatement (statement : Statement) : List ω :=
  (visitor.statement statement).getD <|
    match statement with
    | .labelStatement label _ => visitor.identifier label
    | .breakStatement _ => []
    | .gotoStatement label _ => visitor.identifier label
    | .returnStatement arguments _ => ofExpressions arguments
    | .ifStatement clauses _ => ofClauses clauses
    | .whileStatement condition body _ => ofExpression condition ++ ofBlock body
    | .doStatement body _ => ofBlock body
    | .repeatStatement body condition _ => ofBlock body ++ ofExpression condition
    | .localStatement names values _ =>
      ofExpressions values ++ names.flatMap visitor.ofDeclarator
    | .assignment targets values _ => ofExpressions targets ++ ofExpressions values
    | .callStatement call _ => ofExpression call
    | .functionStatement function => ofFunction function
    | .numericFor counter start stop step body _ =>
      ofExpression start ++ ofExpression stop ++ ofExpression? step ++
        visitor.identifier counter ++ ofBlock body
    | .genericFor names iterators body _ =>
      ofExpressions iterators ++ names.flatMap visitor.identifier ++ ofBlock body
    | .structureDeclaration name fields _ =>
      visitor.identifier name ++ fields.flatMap visitor.ofEntry

/-- What is seen in some statements. -/
def ofStatements : List Statement → List ω
  | [] => []
  | statement :: rest => ofStatement statement ++ ofStatements rest

end

/-- What is seen in a chunk. -/
def ofChunk (chunk : Chunk) : List ω := visitor.ofBlock chunk.body

end Visitor

end LuaSyntax
