import LuaSyntax.Dialect
import LuaSyntax.Tree.Basic

/-!
# What is asked of every node

Many things that hold of a tree hold of it node by node: a name is no reserved word, an operator is one
of the dialect, a placement names true positions. `Demands` says what is asked of names, of literals, of
placements and of what only some dialects have, and a tree `Meets` the demands if all of its nodes do,
down to the names in the scopes that its blocks keep.
-/

namespace LuaSyntax

/-- The feature of a dialect that an operator needs. -/
def UnaryOperator.feature? : UnaryOperator → Option Feature
  | .complement => some .bitwiseOperators
  | _ => none

/-- The feature of a dialect that an operator needs. -/
def BinaryOperator.feature? : BinaryOperator → Option Feature
  | .floorDivide => some .integerDivision
  | .bitAnd | .bitOr | .bitXor | .shiftLeft | .shiftRight => some .bitwiseOperators
  | _ => none

/-- What is asked of the nodes of a tree. -/
structure Demands where
  feature : Feature → Prop
  identifier : Identifier → Prop
  literal : Literal → Prop
  comment : Comment → Prop
  placement : Placement → Prop

section Meets

variable (demands : Demands)

/-! ## Leaves -/

/-- Whether a declaration in a scope meets some demands. One that nothing in the source stands for
does. -/
def Binding.Meets (binding : Binding) : Prop :=
  ∀ identifier ∈ binding.identifier, demands.identifier identifier

/-- Whether a typed name meets some demands. -/
def TypedIdentifier.Meets (declared : TypedIdentifier) : Prop :=
  demands.feature .typedIdentifiers ∧ demands.identifier declared.name ∧
    demands.identifier declared.type ∧ demands.placement declared.placement

/-- Whether a declared name meets some demands. -/
def Declarator.Meets : Declarator → Prop
  | .plain identifier => demands.identifier identifier
  | .typed declared => declared.Meets demands

/-- Whether a parameter meets some demands. -/
def Parameter.Meets : Parameter → Prop
  | .plain identifier => demands.identifier identifier
  | .typed declared => declared.Meets demands
  | .vararg literal => demands.literal literal

/-- Whether a field of a structure declaration meets some demands. -/
def StructureEntry.Meets (entry : StructureEntry) : Prop :=
  demands.identifier entry.key ∧ demands.identifier entry.type ∧ demands.placement entry.placement

/-! ## Statements and expressions -/

mutual

/-- Whether an expression and all in it meet some demands. -/
def Expression.Meets : Expression → Prop
  | .identifier identifier => demands.identifier identifier
  | .literal literal => demands.literal literal
  | .function function => function.Meets
  | .table table => table.Meets
  | .binary operator left right placement =>
    (∀ feature ∈ operator.feature?, demands.feature feature) ∧ left.Meets ∧ right.Meets ∧
      demands.placement placement
  | .logical _ left right placement => left.Meets ∧ right.Meets ∧ demands.placement placement
  | .unary operator argument placement =>
    (∀ feature ∈ operator.feature?, demands.feature feature) ∧ argument.Meets ∧
      demands.placement placement
  | .member base _ name placement =>
    base.Meets ∧ demands.identifier name ∧ demands.placement placement
  | .index base index placement => base.Meets ∧ index.Meets ∧ demands.placement placement
  | .call base arguments placement =>
    base.Meets ∧ expressionsMeet arguments ∧ demands.placement placement
  | .tableCall base argument placement => base.Meets ∧ argument.Meets ∧ demands.placement placement
  | .stringCall base argument placement =>
    base.Meets ∧ demands.literal argument ∧ demands.placement placement
  | .make type fields placement =>
    demands.feature .hmake ∧ demands.identifier type ∧ makeFieldsMeet fields ∧
      demands.placement placement

/-- Whether a table and all in it meet some demands. -/
def Table.Meets : Table → Prop
  | .mk fields placement => tableFieldsMeet fields ∧ demands.placement placement

/-- Whether a field of a table and all in it meet some demands. -/
def TableField.Meets : TableField → Prop
  | .keyed key value placement => key.Meets ∧ value.Meets ∧ demands.placement placement
  | .named key value placement =>
    demands.identifier key ∧ value.Meets ∧ demands.placement placement
  | .positional value placement => value.Meets ∧ demands.placement placement

/-- Whether a field of a structure and all in it meet some demands. -/
def MakeField.Meets : MakeField → Prop
  | .mk key value placement => demands.identifier key ∧ value.Meets ∧ demands.placement placement

/-- Whether a function and all in it meet some demands. -/
def Function.Meets : Function → Prop
  | .mk name _ parameters body placement =>
    expressionMeets? name ∧ (∀ parameter ∈ parameters, parameter.Meets demands) ∧ body.Meets ∧
      demands.placement placement

/-- Whether a block and all in it meet some demands. -/
def Block.Meets : Block → Prop
  | .mk statements scope =>
    statementsMeet statements ∧ ∀ bindings ∈ scope, ∀ binding ∈ bindings, binding.Meets demands

/-- Whether a clause and all in it meet some demands. -/
def Clause.Meets : Clause → Prop
  | .ifClause condition body placement =>
    condition.Meets ∧ body.Meets ∧ demands.placement placement
  | .elseifClause condition body placement =>
    condition.Meets ∧ body.Meets ∧ demands.placement placement
  | .elseClause body placement => body.Meets ∧ demands.placement placement

/-- Whether a statement and all in it meet some demands. -/
def Statement.Meets : Statement → Prop
  | .labelStatement label placement =>
    demands.feature .labels ∧ demands.identifier label ∧ demands.placement placement
  | .breakStatement placement => demands.placement placement
  | .gotoStatement label placement =>
    demands.feature .labels ∧ demands.identifier label ∧ demands.placement placement
  | .returnStatement arguments placement =>
    expressionsMeet arguments ∧ demands.placement placement
  | .ifStatement clauses placement => clausesMeet clauses ∧ demands.placement placement
  | .whileStatement condition body placement =>
    condition.Meets ∧ body.Meets ∧ demands.placement placement
  | .doStatement body placement => body.Meets ∧ demands.placement placement
  | .repeatStatement body condition placement =>
    body.Meets ∧ condition.Meets ∧ demands.placement placement
  | .localStatement names values placement =>
    (∀ name ∈ names, name.Meets demands) ∧ expressionsMeet values ∧ demands.placement placement
  | .assignment targets values placement =>
    expressionsMeet targets ∧ expressionsMeet values ∧ demands.placement placement
  | .callStatement call placement => call.Meets ∧ demands.placement placement
  | .functionStatement function => function.Meets
  | .numericFor counter start stop step body placement =>
    demands.identifier counter ∧ start.Meets ∧ stop.Meets ∧ expressionMeets? step ∧ body.Meets ∧
      demands.placement placement
  | .genericFor names iterators body placement =>
    (∀ name ∈ names, demands.identifier name) ∧ expressionsMeet iterators ∧ body.Meets ∧
      demands.placement placement
  | .structureDeclaration name fields placement =>
    demands.feature .hstructure ∧ demands.identifier name ∧ (∀ field ∈ fields, field.Meets demands) ∧
      demands.placement placement

/-- Whether an expression meets some demands, if there is one. -/
def expressionMeets? : Option Expression → Prop
  | none => True
  | some expression => expression.Meets

/-- Whether some expressions meet some demands. -/
def expressionsMeet : List Expression → Prop
  | [] => True
  | expression :: rest => expression.Meets ∧ expressionsMeet rest

/-- Whether some fields of a table meet some demands. -/
def tableFieldsMeet : List TableField → Prop
  | [] => True
  | field :: rest => field.Meets ∧ tableFieldsMeet rest

/-- Whether some fields of a structure meet some demands. -/
def makeFieldsMeet : List MakeField → Prop
  | [] => True
  | field :: rest => field.Meets ∧ makeFieldsMeet rest

/-- Whether some clauses meet some demands. -/
def clausesMeet : List Clause → Prop
  | [] => True
  | clause :: rest => clause.Meets ∧ clausesMeet rest

/-- Whether some statements meet some demands. -/
def statementsMeet : List Statement → Prop
  | [] => True
  | statement :: rest => statement.Meets ∧ statementsMeet rest

end

/-- Whether a chunk and all in it meet some demands. -/
def Chunk.Meets (chunk : Chunk) : Prop :=
  chunk.body.Meets demands ∧
    (∀ comments ∈ chunk.comments, ∀ comment ∈ comments, demands.comment comment) ∧
      (∀ names ∈ chunk.globals, ∀ name ∈ names, demands.identifier name) ∧
        demands.placement chunk.placement

end Meets

variable {demands : Demands}

/-! ## Rows -/

/-- A list of expressions meets demands exactly when each of them does. -/
theorem expressionsMeet_iff {expressions : List Expression} :
    expressionsMeet demands expressions ↔ ∀ expression ∈ expressions, expression.Meets demands := by
  induction expressions with
  | nil => exact ⟨fun _ => List.forall_mem_nil _, fun _ => trivial⟩
  | cons expression rest ih => rw [expressionsMeet, ih, List.forall_mem_cons]

/-- A list of fields meets demands exactly when each of them does. -/
theorem tableFieldsMeet_iff {fields : List TableField} :
    tableFieldsMeet demands fields ↔ ∀ field ∈ fields, field.Meets demands := by
  induction fields with
  | nil => exact ⟨fun _ => List.forall_mem_nil _, fun _ => trivial⟩
  | cons field rest ih => rw [tableFieldsMeet, ih, List.forall_mem_cons]

/-- A list of fields of `make` meets demands exactly when each of them does. -/
theorem makeFieldsMeet_iff {fields : List MakeField} :
    makeFieldsMeet demands fields ↔ ∀ field ∈ fields, field.Meets demands := by
  induction fields with
  | nil => exact ⟨fun _ => List.forall_mem_nil _, fun _ => trivial⟩
  | cons field rest ih => rw [makeFieldsMeet, ih, List.forall_mem_cons]

/-- A list of clauses meets demands exactly when each of them does. -/
theorem clausesMeet_iff {clauses : List Clause} :
    clausesMeet demands clauses ↔ ∀ clause ∈ clauses, clause.Meets demands := by
  induction clauses with
  | nil => exact ⟨fun _ => List.forall_mem_nil _, fun _ => trivial⟩
  | cons clause rest ih => rw [clausesMeet, ih, List.forall_mem_cons]

/-- A list of statements meets demands exactly when each of them does. -/
theorem statementsMeet_iff {statements : List Statement} :
    statementsMeet demands statements ↔ ∀ statement ∈ statements, statement.Meets demands := by
  induction statements with
  | nil => exact ⟨fun _ => List.forall_mem_nil _, fun _ => trivial⟩
  | cons statement rest ih => rw [statementsMeet, ih, List.forall_mem_cons]

/-- An optional expression meets demands exactly when it does where it is there. -/
theorem expressionMeets?_iff {expression : Option Expression} :
    expressionMeets? demands expression ↔ ∀ value ∈ expression, value.Meets demands := by
  cases expression with
  | none => exact ⟨fun _ _ h => (nomatch h), fun _ => trivial⟩
  | some expression => exact ⟨fun h _ heq => Option.mem_some.mp heq ▸ h, fun h => h _ rfl⟩

end LuaSyntax
