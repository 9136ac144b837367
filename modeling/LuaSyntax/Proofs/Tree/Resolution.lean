import LuaSyntax.Proofs.Tree.Erasure

/-!
# Lexical scoping

What the names of a tree mean, said without any parse. `resolve` walks a tree that says nothing of
its names and carries along the names in force, the environment. A declaration is in force from the
end of its statement to the end of its block; besides that, the name of a local function is in force
in the function, parameters and the variables of a loop are in force in the body, and what the body
of a `repeat` declares is in force in its condition too.

`free` gives the uses of names that no declaration is in force for, in the order in which they stand
in the source.
-/

namespace LuaSyntax

/-- The names in force somewhere in a tree. -/
def Environment : Type := String → Bool

namespace Environment

/-- Nothing is in force around a chunk. -/
def empty : Environment := fun _ => false

/-- What is in force behind some declarations. -/
def declare (env : Environment) (bindings : List Binding) : Environment := fun name =>
  (bindings.any fun binding => binding.name == name) || env name

/-- Bindings are declared one part behind the other. -/
theorem declare_append (env : Environment) (bindings more : List Binding) :
    env.declare (bindings ++ more) = (env.declare bindings).declare more := by
  funext name
  unfold declare
  rw [List.any_append, Bool.or_comm (bindings.any _), Bool.or_assoc]

end Environment

/-! ## Leaves -/

/-- A use of a name. -/
def Identifier.resolve (env : Environment) (identifier : Identifier) : Identifier :=
  { identifier with isLocal := env identifier.name }

/-- A name where it is declared. -/
def Identifier.declared (identifier : Identifier) : Identifier :=
  { identifier with isLocal := true }

/-- What a name declares. -/
def Identifier.binding (identifier : Identifier) : Binding :=
  ⟨identifier.name, some identifier.declared⟩

/-- A declared name with or without a type. -/
def Declarator.declared (declarator : Declarator) : Declarator :=
  declarator.withIdentifier declarator.identifier.declared

/-- A parameter where it is declared. -/
def Parameter.declared : Parameter → Parameter
  | .plain identifier => .plain identifier.declared
  | .typed annotated => .typed { annotated with name := annotated.name.declared }
  | .vararg dots => .vararg dots

/-- What a parameter declares. -/
def Parameter.bindings (parameter : Parameter) : List Binding :=
  (parameter.identifier?.map Identifier.binding).toList

/-! ## Declarations -/

/-- What the name of a function declares inside the function: a method has a receiver. -/
def receiver : Option Expression → List Binding
  | some (.member _ .colon _ _) => [⟨"self", none⟩]
  | _ => []

/-- What a function declares around itself, by its name and by whether it is local. -/
def functionBindings : Option Expression → Bool → List Binding
  | some (.identifier name), true => [name.binding]
  | _, _ => []

/-- A function that is no local function declares nothing around itself. -/
theorem functionBindings_false (name : Option Expression) : functionBindings name false = [] := by
  cases name with
  | none => rfl
  | some name => cases name <;> rfl

/-- What a function declares around itself. -/
def Function.bindings : Function → List Binding
  | .mk name isLocal _ _ _ => functionBindings name isLocal

/-- What a statement declares for the statements behind it. -/
def Statement.bindings : Statement → List Binding
  | .localStatement names _ _ => names.map fun name => name.identifier.binding
  | .functionStatement function => function.bindings
  | _ => []

/-- What the statements of a block declare. -/
def Block.bindings : Block → List Binding
  | .mk statements _ => statements.flatMap Statement.bindings

/-! ## Resolution -/

mutual

/-- An expression with its names resolved. -/
def Expression.resolve (env : Environment) : Expression → Expression
  | .identifier name => .identifier (name.resolve env)
  | .literal leaf => .literal leaf
  | .function inner => .function (inner.resolve env)
  | .table inner => .table (inner.resolve env)
  | .binary operator left right placement =>
    .binary operator (left.resolve env) (right.resolve env) placement
  | .logical operator left right placement =>
    .logical operator (left.resolve env) (right.resolve env) placement
  | .unary operator argument placement => .unary operator (argument.resolve env) placement
  | .member base indexer name placement => .member (base.resolve env) indexer name placement
  | .index base index placement => .index (base.resolve env) (index.resolve env) placement
  | .call base arguments placement =>
    .call (base.resolve env) (resolveExpressions env arguments) placement
  | .tableCall base argument placement =>
    .tableCall (base.resolve env) (argument.resolve env) placement
  | .stringCall base argument placement => .stringCall (base.resolve env) argument placement
  | .make type fields placement => .make type (resolveMakeFields env fields) placement

/-- Some expressions with their names resolved. -/
def resolveExpressions (env : Environment) : List Expression → List Expression
  | [] => []
  | expression :: rest => expression.resolve env :: resolveExpressions env rest

/-- An expression that may be absent, with its names resolved. -/
def resolveExpression? (env : Environment) : Option Expression → Option Expression
  | none => none
  | some expression => some (expression.resolve env)

/-- A table constructor with its names resolved. -/
def Table.resolve (env : Environment) : Table → Table
  | .mk fields placement => .mk (resolveTableFields env fields) placement

/-- A table field with its names resolved. -/
def TableField.resolve (env : Environment) : TableField → TableField
  | .keyed key value placement => .keyed (key.resolve env) (value.resolve env) placement
  | .named key value placement => .named key (value.resolve env) placement
  | .positional value placement => .positional (value.resolve env) placement

/-- Some table fields with their names resolved. -/
def resolveTableFields (env : Environment) : List TableField → List TableField
  | [] => []
  | field :: rest => field.resolve env :: resolveTableFields env rest

/-- A field of a structure constructor with its names resolved. -/
def MakeField.resolve (env : Environment) : MakeField → MakeField
  | .mk key value placement => .mk key (value.resolve env) placement

/-- Some fields of a structure constructor with their names resolved. -/
def resolveMakeFields (env : Environment) : List MakeField → List MakeField
  | [] => []
  | field :: rest => field.resolve env :: resolveMakeFields env rest

/-- A function with its names resolved. Its body is entered with its parameters. -/
def Function.resolve (env : Environment) : Function → Function
  | .mk name isLocal parameters body placement =>
    .mk (resolveExpression? env name) isLocal (parameters.map Parameter.declared)
      (body.resolve env (receiver name ++ parameters.flatMap Parameter.bindings)) placement

/-- A block that is entered with some declarations, with its names resolved. -/
def Block.resolve (env : Environment) (first : List Binding) : Block → Block
  | .mk statements _ =>
    .mk (resolveStatements (env.declare first) statements)
      (some (first ++ statements.flatMap Statement.bindings))

/-- A clause with its names resolved. -/
def Clause.resolve (env : Environment) : Clause → Clause
  | .ifClause condition body placement =>
    .ifClause (condition.resolve env) (body.resolve env []) placement
  | .elseifClause condition body placement =>
    .elseifClause (condition.resolve env) (body.resolve env []) placement
  | .elseClause body placement => .elseClause (body.resolve env []) placement

/-- Some clauses with their names resolved. -/
def resolveClauses (env : Environment) : List Clause → List Clause
  | [] => []
  | clause :: rest => clause.resolve env :: resolveClauses env rest

/-- A statement with its names resolved. -/
def Statement.resolve (env : Environment) : Statement → Statement
  | .labelStatement label placement => .labelStatement label placement
  | .breakStatement placement => .breakStatement placement
  | .gotoStatement label placement => .gotoStatement label placement
  | .returnStatement arguments placement =>
    .returnStatement (resolveExpressions env arguments) placement
  | .ifStatement clauses placement => .ifStatement (resolveClauses env clauses) placement
  | .whileStatement condition body placement =>
    .whileStatement (condition.resolve env) (body.resolve env []) placement
  | .doStatement body placement => .doStatement (body.resolve env []) placement
  | .repeatStatement body condition placement =>
    .repeatStatement (body.resolve env []) (condition.resolve (env.declare body.bindings)) placement
  | .localStatement names values placement =>
    .localStatement (names.map Declarator.declared) (resolveExpressions env values) placement
  | .assignment targets values placement =>
    .assignment (resolveExpressions env targets) (resolveExpressions env values) placement
  | .callStatement call placement => .callStatement (call.resolve env) placement
  | .functionStatement function =>
    .functionStatement (function.resolve (env.declare function.bindings))
  | .numericFor counter start stop step body placement =>
    .numericFor counter.declared (start.resolve env) (stop.resolve env)
      (resolveExpression? env step) (body.resolve env [counter.binding]) placement
  | .genericFor names iterators body placement =>
    .genericFor (names.map Identifier.declared) (resolveExpressions env iterators)
      (body.resolve env (names.map Identifier.binding)) placement
  | .structureDeclaration name fields placement => .structureDeclaration name fields placement

/-- Some statements with their names resolved. Each of them sees what those before it declare. -/
def resolveStatements (env : Environment) : List Statement → List Statement
  | [] => []
  | statement :: rest =>
    statement.resolve env :: resolveStatements (env.declare statement.bindings) rest

end

/-! ## Uses -/

mutual

/-- The names used in an expression that denote no local variable, in order. -/
def Expression.free : Expression → List Identifier
  | .identifier name => if name.isLocal then [] else [name]
  | .literal _ => []
  | .function inner => inner.free
  | .table inner => inner.free
  | .binary _ left right _ => left.free ++ right.free
  | .logical _ left right _ => left.free ++ right.free
  | .unary _ argument _ => argument.free
  | .member base _ _ _ => base.free
  | .index base index _ => base.free ++ index.free
  | .call base arguments _ => base.free ++ freeExpressions arguments
  | .tableCall base argument _ => base.free ++ argument.free
  | .stringCall base _ _ => base.free
  | .make _ fields _ => freeMakeFields fields

/-- The names used in some expressions that denote no local variable. -/
def freeExpressions : List Expression → List Identifier
  | [] => []
  | expression :: rest => expression.free ++ freeExpressions rest

/-- The names used in an expression that may be absent, if they denote no local variable. -/
def freeExpression? : Option Expression → List Identifier
  | none => []
  | some expression => expression.free

/-- The names used in a table constructor that denote no local variable. -/
def Table.free : Table → List Identifier
  | .mk fields _ => freeTableFields fields

/-- The names used in a table field that denote no local variable. -/
def TableField.free : TableField → List Identifier
  | .keyed key value _ => key.free ++ value.free
  | .named _ value _ => value.free
  | .positional value _ => value.free

/-- The names used in some table fields that denote no local variable. -/
def freeTableFields : List TableField → List Identifier
  | [] => []
  | field :: rest => field.free ++ freeTableFields rest

/-- The names used in a field of a structure constructor that denote no local variable. -/
def MakeField.free : MakeField → List Identifier
  | .mk _ value _ => value.free

/-- The names used in some fields of a structure constructor that denote no local variable. -/
def freeMakeFields : List MakeField → List Identifier
  | [] => []
  | field :: rest => field.free ++ freeMakeFields rest

/-- The names used in a function that denote no local variable. -/
def Function.free : Function → List Identifier
  | .mk name _ _ body _ => freeExpression? name ++ body.free

/-- The names used in a block that denote no local variable. -/
def Block.free : Block → List Identifier
  | .mk statements _ => freeStatements statements

/-- The names used in a clause that denote no local variable. -/
def Clause.free : Clause → List Identifier
  | .ifClause condition body _ => condition.free ++ body.free
  | .elseifClause condition body _ => condition.free ++ body.free
  | .elseClause body _ => body.free

/-- The names used in some clauses that denote no local variable. -/
def freeClauses : List Clause → List Identifier
  | [] => []
  | clause :: rest => clause.free ++ freeClauses rest

/-- The names used in a statement that denote no local variable. -/
def Statement.free : Statement → List Identifier
  | .labelStatement _ _ => []
  | .breakStatement _ => []
  | .gotoStatement _ _ => []
  | .returnStatement arguments _ => freeExpressions arguments
  | .ifStatement clauses _ => freeClauses clauses
  | .whileStatement condition body _ => condition.free ++ body.free
  | .doStatement body _ => body.free
  | .repeatStatement body condition _ => body.free ++ condition.free
  | .localStatement _ values _ => freeExpressions values
  | .assignment targets values _ => freeExpressions targets ++ freeExpressions values
  | .callStatement call _ => call.free
  | .functionStatement function => function.free
  | .numericFor _ start stop step body _ =>
    start.free ++ stop.free ++ freeExpression? step ++ body.free
  | .genericFor _ iterators body _ => freeExpressions iterators ++ body.free
  | .structureDeclaration _ _ _ => []

/-- The names used in some statements that denote no local variable. -/
def freeStatements : List Statement → List Identifier
  | [] => []
  | statement :: rest => statement.free ++ freeStatements rest

end

/-- Some names and one more, unless its spelling is among them. -/
def note (known : List Identifier) (name : Identifier) : List Identifier :=
  if known.any fun other => other.name == name.name then known else known ++ [name]

/-- Some names and, of each further spelling among others, the first that has it. -/
def noted (known names : List Identifier) : List Identifier := names.foldl note known

/-! ## Chunks -/

/-- A chunk that says nothing of its names. -/
def Chunk.forget (chunk : Chunk) : Chunk :=
  { chunk with body := chunk.body.erase .resolution, globals := none }

/-- A chunk with its names resolved. -/
def Chunk.resolve (chunk : Chunk) : Chunk :=
  let body := chunk.body.resolve .empty []
  { chunk with body, globals := some (noted [] body.free) }

/-! ## Rows -/

/-- Names are noted one part behind the other. -/
theorem noted_append (known names more : List Identifier) :
    noted known (names ++ more) = noted (noted known names) more :=
  List.foldl_append

section

variable (env : Environment)

/-- To resolve a list of expressions is to resolve each. -/
theorem resolveExpressions_eq (expressions : List Expression) :
    resolveExpressions env expressions = expressions.map (·.resolve env) := by
  induction expressions with
  | nil => rfl
  | cons expression rest ih => rw [resolveExpressions, ih, List.map_cons]

/-- To resolve a list of fields is to resolve each. -/
theorem resolveTableFields_eq (fields : List TableField) :
    resolveTableFields env fields = fields.map (·.resolve env) := by
  induction fields with
  | nil => rfl
  | cons field rest ih => rw [resolveTableFields, ih, List.map_cons]

/-- To resolve a list of fields of `make` is to resolve each. -/
theorem resolveMakeFields_eq (fields : List MakeField) :
    resolveMakeFields env fields = fields.map (·.resolve env) := by
  induction fields with
  | nil => rfl
  | cons field rest ih => rw [resolveMakeFields, ih, List.map_cons]

/-- To resolve a list of clauses is to resolve each. -/
theorem resolveClauses_eq (clauses : List Clause) :
    resolveClauses env clauses = clauses.map (·.resolve env) := by
  induction clauses with
  | nil => rfl
  | cons clause rest ih => rw [resolveClauses, ih, List.map_cons]

/-- Statements behind others see what those declare. -/
theorem resolveStatements_append (statements more : List Statement) :
    resolveStatements env (statements ++ more) = resolveStatements env statements ++
      resolveStatements (env.declare (statements.flatMap Statement.bindings)) more := by
  induction statements generalizing env with
  | nil => rfl
  | cons statement rest ih =>
    rw [List.cons_append, resolveStatements, resolveStatements, ih, List.cons_append,
      List.flatMap_cons, Environment.declare_append]

end

/-- The free names of expressions are those of each. -/
theorem freeExpressions_eq (expressions : List Expression) :
    freeExpressions expressions = expressions.flatMap Expression.free := by
  induction expressions with
  | nil => rfl
  | cons expression rest ih => rw [freeExpressions, ih, List.flatMap_cons]

/-- The free names of fields are those of each. -/
theorem freeTableFields_eq (fields : List TableField) :
    freeTableFields fields = fields.flatMap TableField.free := by
  induction fields with
  | nil => rfl
  | cons field rest ih => rw [freeTableFields, ih, List.flatMap_cons]

/-- The free names of fields of `make` are those of each. -/
theorem freeMakeFields_eq (fields : List MakeField) :
    freeMakeFields fields = fields.flatMap MakeField.free := by
  induction fields with
  | nil => rfl
  | cons field rest ih => rw [freeMakeFields, ih, List.flatMap_cons]

/-- The free names of clauses are those of each. -/
theorem freeClauses_eq (clauses : List Clause) :
    freeClauses clauses = clauses.flatMap Clause.free := by
  induction clauses with
  | nil => rfl
  | cons clause rest ih => rw [freeClauses, ih, List.flatMap_cons]

/-- The free names of statements are those of each. -/
theorem freeStatements_eq (statements : List Statement) :
    freeStatements statements = statements.flatMap Statement.free := by
  induction statements with
  | nil => rfl
  | cons statement rest ih => rw [freeStatements, ih, List.flatMap_cons]

/-! ## Declarations of erased trees -/

/-- A parameter binds the same without its resolution. -/
@[simp] theorem Parameter.bindings_erase (parameter : Parameter) :
    (parameter.erase .resolution).bindings = parameter.bindings := by
  cases parameter <;> rfl

/-- The name of a function binds the same without its resolution. -/
@[simp] theorem functionBindings_erase (name : Option Expression) (isLocal : Bool) :
    functionBindings (eraseExpression? .resolution name) isLocal = functionBindings name isLocal := by
  cases name with
  | none => rfl
  | some name => cases name <;> cases isLocal <;> rfl

/-- A function has the same receiver without its resolution. -/
@[simp] theorem receiver_erase (name : Option Expression) :
    receiver (eraseExpression? .resolution name) = receiver name := by
  cases name with
  | none => rfl
  | some name =>
    cases name with
    | member base indexer => cases indexer <;> rfl
    | _ => rfl

/-- A statement binds the same without its resolution. -/
@[simp] theorem Statement.bindings_erase (statement : Statement) :
    (statement.erase .resolution).bindings = statement.bindings := by
  cases statement with
  | localStatement names =>
    show (names.map (·.erase .resolution)).map _ = names.map _
    rw [List.map_map]
    apply List.map_congr_left
    intro name _
    cases name <;> rfl
  | functionStatement function =>
    obtain ⟨name, isLocal, _, _, _⟩ := function
    exact functionBindings_erase name isLocal
  | _ => rfl

/-- What statements declare can be read off a tree that says nothing of its names. -/
@[simp] theorem bindings_eraseStatements (statements : List Statement) :
    (eraseStatements .resolution statements).flatMap Statement.bindings =
      statements.flatMap Statement.bindings := by
  induction statements with
  | nil => rfl
  | cons statement rest ih =>
    rw [eraseStatements, List.flatMap_cons, ih, Statement.bindings_erase, List.flatMap_cons]

end LuaSyntax
