import LuaSyntax.Tree.Basic

/-!
# Trees without annotations

Besides what was written, a tree says where everything stands and how its names were resolved. An
`Erasure` is a choice of what to make of these annotations, and `erase` applies it everywhere in a
tree. Two instances matter: `Erasure.resolution` takes away what resolution has added, and
`Erasure.annotations` takes away everything that is not in the tokens.
-/

namespace LuaSyntax

/-- What is made of the annotations of a tree. -/
structure Erasure where
  placement : Placement → Placement
  isLocal : Bool → Bool
  scope : Option (List Binding) → Option (List Binding)

namespace Erasure

/-- Takes away what the resolution of names has added. -/
def resolution : Erasure := ⟨id, fun _ => false, fun _ => none⟩

/-- Takes away everything that is not in the tokens. -/
def annotations : Erasure := ⟨fun _ => .none, fun _ => false, fun _ => none⟩

end Erasure

variable (erasure : Erasure)

/-! ## Leaves -/

/-- A name with its annotations erased. -/
def Identifier.erase (identifier : Identifier) : Identifier :=
  { identifier with
    isLocal := erasure.isLocal identifier.isLocal
    placement := erasure.placement identifier.placement }

/-- A literal with its annotations erased. -/
def Literal.erase (literal : Literal) : Literal :=
  { literal with placement := erasure.placement literal.placement }

/-- A typed name with its annotations erased. -/
def TypedIdentifier.erase (typed : TypedIdentifier) : TypedIdentifier :=
  ⟨typed.name.erase erasure, typed.type.erase erasure, erasure.placement typed.placement⟩

/-- A declared name with its annotations erased. -/
def Declarator.erase : Declarator → Declarator
  | .plain identifier => .plain (identifier.erase erasure)
  | .typed declared => .typed (declared.erase erasure)

/-- A parameter with its annotations erased. -/
def Parameter.erase : Parameter → Parameter
  | .plain identifier => .plain (identifier.erase erasure)
  | .typed declared => .typed (declared.erase erasure)
  | .vararg dots => .vararg (dots.erase erasure)

/-- A field of a structure declaration with its annotations erased. -/
def StructureEntry.erase (entry : StructureEntry) : StructureEntry :=
  ⟨entry.key.erase erasure, entry.type.erase erasure, erasure.placement entry.placement⟩

/-! ## Statements and expressions -/

mutual

/-- An expression with its annotations erased. -/
def Expression.erase : Expression → Expression
  | .identifier name => .identifier (name.erase erasure)
  | .literal leaf => .literal (leaf.erase erasure)
  | .function inner => .function inner.erase
  | .table inner => .table inner.erase
  | .binary operator left right placement =>
    .binary operator left.erase right.erase (erasure.placement placement)
  | .logical operator left right placement =>
    .logical operator left.erase right.erase (erasure.placement placement)
  | .unary operator argument placement =>
    .unary operator argument.erase (erasure.placement placement)
  | .member base indexer name placement =>
    .member base.erase indexer (name.erase erasure) (erasure.placement placement)
  | .index base index placement => .index base.erase index.erase (erasure.placement placement)
  | .call base arguments placement =>
    .call base.erase (eraseExpressions arguments) (erasure.placement placement)
  | .tableCall base argument placement =>
    .tableCall base.erase argument.erase (erasure.placement placement)
  | .stringCall base argument placement =>
    .stringCall base.erase (argument.erase erasure) (erasure.placement placement)
  | .make type fields placement =>
    .make (type.erase erasure) (eraseMakeFields fields) (erasure.placement placement)

/-- Some expressions with their annotations erased. -/
def eraseExpressions : List Expression → List Expression
  | [] => []
  | expression :: rest => expression.erase :: eraseExpressions rest

/-- An expression that may be absent, with its annotations erased. -/
def eraseExpression? : Option Expression → Option Expression
  | none => none
  | some expression => some expression.erase

/-- A table constructor with its annotations erased. -/
def Table.erase : Table → Table
  | .mk fields placement => .mk (eraseTableFields fields) (erasure.placement placement)

/-- A table field with its annotations erased. -/
def TableField.erase : TableField → TableField
  | .keyed key value placement => .keyed key.erase value.erase (erasure.placement placement)
  | .named key value placement =>
    .named (key.erase erasure) value.erase (erasure.placement placement)
  | .positional value placement => .positional value.erase (erasure.placement placement)

/-- Some table fields with their annotations erased. -/
def eraseTableFields : List TableField → List TableField
  | [] => []
  | field :: rest => field.erase :: eraseTableFields rest

/-- A field of a structure constructor with its annotations erased. -/
def MakeField.erase : MakeField → MakeField
  | .mk key value placement => .mk (key.erase erasure) value.erase (erasure.placement placement)

/-- Some fields of a structure constructor with their annotations erased. -/
def eraseMakeFields : List MakeField → List MakeField
  | [] => []
  | field :: rest => field.erase :: eraseMakeFields rest

/-- A function with its annotations erased. -/
def Function.erase : Function → Function
  | .mk name isLocal parameters body placement =>
    .mk (eraseExpression? name) isLocal (parameters.map (·.erase erasure)) body.erase
      (erasure.placement placement)

/-- A block with its annotations erased. -/
def Block.erase : Block → Block
  | .mk statements scope => .mk (eraseStatements statements) (erasure.scope scope)

/-- A clause with its annotations erased. -/
def Clause.erase : Clause → Clause
  | .ifClause condition body placement =>
    .ifClause condition.erase body.erase (erasure.placement placement)
  | .elseifClause condition body placement =>
    .elseifClause condition.erase body.erase (erasure.placement placement)
  | .elseClause body placement => .elseClause body.erase (erasure.placement placement)

/-- Some clauses with their annotations erased. -/
def eraseClauses : List Clause → List Clause
  | [] => []
  | clause :: rest => clause.erase :: eraseClauses rest

/-- A statement with its annotations erased. -/
def Statement.erase : Statement → Statement
  | .labelStatement label placement =>
    .labelStatement (label.erase erasure) (erasure.placement placement)
  | .breakStatement placement => .breakStatement (erasure.placement placement)
  | .gotoStatement label placement =>
    .gotoStatement (label.erase erasure) (erasure.placement placement)
  | .returnStatement arguments placement =>
    .returnStatement (eraseExpressions arguments) (erasure.placement placement)
  | .ifStatement clauses placement =>
    .ifStatement (eraseClauses clauses) (erasure.placement placement)
  | .whileStatement condition body placement =>
    .whileStatement condition.erase body.erase (erasure.placement placement)
  | .doStatement body placement => .doStatement body.erase (erasure.placement placement)
  | .repeatStatement body condition placement =>
    .repeatStatement body.erase condition.erase (erasure.placement placement)
  | .localStatement names values placement =>
    .localStatement (names.map (·.erase erasure)) (eraseExpressions values)
      (erasure.placement placement)
  | .assignment targets values placement =>
    .assignment (eraseExpressions targets) (eraseExpressions values) (erasure.placement placement)
  | .callStatement call placement => .callStatement call.erase (erasure.placement placement)
  | .functionStatement function => .functionStatement function.erase
  | .numericFor counter start stop step body placement =>
    .numericFor (counter.erase erasure) start.erase stop.erase (eraseExpression? step) body.erase
      (erasure.placement placement)
  | .genericFor names iterators body placement =>
    .genericFor (names.map (·.erase erasure)) (eraseExpressions iterators) body.erase
      (erasure.placement placement)
  | .structureDeclaration name fields placement =>
    .structureDeclaration (name.erase erasure) (fields.map (·.erase erasure))
      (erasure.placement placement)

/-- Some statements with their annotations erased. -/
def eraseStatements : List Statement → List Statement
  | [] => []
  | statement :: rest => statement.erase :: eraseStatements rest

end

/-! ## Rows -/

/-- To erase a list of expressions is to erase each. -/
@[simp] theorem eraseExpressions_eq (expressions : List Expression) :
    eraseExpressions erasure expressions = expressions.map (·.erase erasure) := by
  induction expressions with
  | nil => rfl
  | cons expression rest ih => rw [eraseExpressions, ih, List.map_cons]

/-- To erase an optional expression is to erase it where it is there. -/
@[simp] theorem eraseExpression?_eq (expression : Option Expression) :
    eraseExpression? erasure expression = expression.map (·.erase erasure) := by
  cases expression <;> rfl

/-- To erase a list of fields is to erase each. -/
@[simp] theorem eraseTableFields_eq (fields : List TableField) :
    eraseTableFields erasure fields = fields.map (·.erase erasure) := by
  induction fields with
  | nil => rfl
  | cons field rest ih => rw [eraseTableFields, ih, List.map_cons]

/-- To erase a list of fields of `make` is to erase each. -/
@[simp] theorem eraseMakeFields_eq (fields : List MakeField) :
    eraseMakeFields erasure fields = fields.map (·.erase erasure) := by
  induction fields with
  | nil => rfl
  | cons field rest ih => rw [eraseMakeFields, ih, List.map_cons]

/-- To erase a list of clauses is to erase each. -/
@[simp] theorem eraseClauses_eq (clauses : List Clause) :
    eraseClauses erasure clauses = clauses.map (·.erase erasure) := by
  induction clauses with
  | nil => rfl
  | cons clause rest ih => rw [eraseClauses, ih, List.map_cons]

/-- To erase a list of statements is to erase each. -/
@[simp] theorem eraseStatements_eq (statements : List Statement) :
    eraseStatements erasure statements = statements.map (·.erase erasure) := by
  induction statements with
  | nil => rfl
  | cons statement rest ih => rw [eraseStatements, ih, List.map_cons]

/-! ## What erasing leaves alone -/

/-- What is erased is a call if it was. -/
@[simp] theorem Expression.isCall_erase (expression : Expression) :
    (expression.erase erasure).isCall = expression.isCall := by
  cases expression <;> rfl

/-- What is erased can be assigned to if it could. -/
@[simp] theorem Expression.isAssignable_erase (expression : Expression) :
    (expression.erase erasure).isAssignable = expression.isAssignable := by
  cases expression <;> rfl

/-- What is erased declares the erased name. -/
@[simp] theorem Declarator.identifier_erase (declarator : Declarator) :
    (declarator.erase erasure).identifier = declarator.identifier.erase erasure := by
  cases declarator <;> rfl

/-- To erase a declarator with another name is to erase both. -/
@[simp] theorem Declarator.withIdentifier_erase (declarator : Declarator) (name : Identifier) :
    (declarator.withIdentifier name).erase erasure =
      (declarator.erase erasure).withIdentifier (name.erase erasure) := by
  cases declarator <;> rfl

end LuaSyntax
