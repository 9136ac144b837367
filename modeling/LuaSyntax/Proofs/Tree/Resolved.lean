import Mathlib.Logic.Basic
import LuaSyntax.Proofs.Tree.Resolution

/-!
# Trees whose names are resolved

A tree is resolved in an environment if resolution brings back what erasing takes away from it. A
node is resolved if its parts are, each with the names that are in force there.
-/

namespace LuaSyntax

/-- Things that names are used in. -/
class Resolving (α : Type) where
  isResolved : Environment → α → Prop
  /-- The names used in a thing that denote no local variable, in order. -/
  free : α → List Identifier

export Resolving (free)

/-- Whether the names in a thing say what is in force. -/
def Resolved {α : Type} [Resolving α] (env : Environment) (a : α) : Prop :=
  Resolving.isResolved env a

instance : Resolving Expression :=
  ⟨fun env expression => (expression.erase .resolution).resolve env = expression, Expression.free⟩

instance : Resolving Table :=
  ⟨fun env table => (table.erase .resolution).resolve env = table, Table.free⟩

instance : Resolving TableField :=
  ⟨fun env field => (field.erase .resolution).resolve env = field, TableField.free⟩

instance : Resolving MakeField :=
  ⟨fun env field => (field.erase .resolution).resolve env = field, MakeField.free⟩

instance : Resolving Function :=
  ⟨fun env function => (function.erase .resolution).resolve env = function, Function.free⟩

instance : Resolving Clause :=
  ⟨fun env clause => (clause.erase .resolution).resolve env = clause, Clause.free⟩

instance : Resolving Statement :=
  ⟨fun env statement => (statement.erase .resolution).resolve env = statement, Statement.free⟩

instance {α : Type} [Resolving α] : Resolving (Option α) :=
  ⟨fun env value? => ∀ value ∈ value?, Resolved env value, fun value? => value?.elim [] free⟩

instance {α : Type} [Resolving α] : Resolving (List α) :=
  ⟨fun env values => ∀ value ∈ values, Resolved env value, fun values => values.flatMap free⟩

/-- Whether the names in a row of statements say what is in force, where each of them sees what those
before it declare. -/
def ResolvedRow (env : Environment) (statements : List Statement) : Prop :=
  resolveStatements env (eraseStatements .resolution statements) = statements

/-- Whether the names in a block say what is in force, if it is entered with some declarations. -/
def ResolvedBody (env : Environment) (first : List Binding) (body : Block) : Prop :=
  (body.erase .resolution).resolve env first = body

variable {env : Environment} {first : List Binding} {base index left right value : Expression}
  {arguments targets : List Expression} {table : Table} {name type : Identifier} {body : Block}
  {placement : Placement}

/-! ## Rows -/

section

variable {α : Type} [Resolving α] {a : α} {l m : List α}

/-- A value that is there is resolved exactly when it is. -/
@[simp] theorem resolved_some : Resolved env (some a) ↔ Resolved env a :=
  ⟨fun h => h a rfl, fun h _ heq => Option.some.inj heq ▸ h⟩

/-- What is not there is resolved. -/
@[simp] theorem resolved_none : Resolved env (none : Option α) := fun _ h => nomatch h

/-- An empty list is resolved. -/
@[simp] theorem resolved_nil : Resolved env ([] : List α) := List.forall_mem_nil _

/-- A list is resolved exactly when its head and its tail are. -/
@[simp] theorem resolved_cons : Resolved env (a :: l) ↔ Resolved env a ∧ Resolved env l :=
  List.forall_mem_cons

/-- A list of one is resolved if that is. -/
theorem resolved_singleton (h : Resolved env a) : Resolved env [a] :=
  resolved_cons.mpr ⟨h, resolved_nil⟩

/-- A list is resolved exactly when its first and its second part are. -/
@[simp] theorem resolved_append : Resolved env (l ++ m) ↔ Resolved env l ∧ Resolved env m :=
  List.forall_mem_append

end

/-- An optional value is resolved as a list exactly when it is. -/
@[simp] theorem resolved_toList {α : Type} [Resolving α] {a : Option α} :
    Resolved env a.toList ↔ Resolved env a := by
  cases a <;> simp

/-- Resolved expressions are resolved again as they were. -/
theorem Resolved.expressions (h : Resolved env arguments) :
    resolveExpressions env (eraseExpressions .resolution arguments) = arguments := by
  rw [eraseExpressions_eq, resolveExpressions_eq, List.map_map]
  exact (List.map_congr_left h).trans (List.map_id arguments)

/-- A resolved optional expression is resolved again as it was. -/
theorem Resolved.expression? {expression : Option Expression} (h : Resolved env expression) :
    resolveExpression? env (eraseExpression? .resolution expression) = expression := by
  cases expression with
  | none => rfl
  | some expression => exact congrArg some (resolved_some.mp h)

/-- Resolved fields are resolved again as they were. -/
theorem Resolved.tableFields {fields : List TableField} (h : Resolved env fields) :
    resolveTableFields env (eraseTableFields .resolution fields) = fields := by
  rw [eraseTableFields_eq, resolveTableFields_eq, List.map_map]
  exact (List.map_congr_left h).trans (List.map_id fields)

/-- Resolved fields of `make` are resolved again as they were. -/
theorem Resolved.makeFields {fields : List MakeField} (h : Resolved env fields) :
    resolveMakeFields env (eraseMakeFields .resolution fields) = fields := by
  rw [eraseMakeFields_eq, resolveMakeFields_eq, List.map_map]
  exact (List.map_congr_left h).trans (List.map_id fields)

/-- Resolved clauses are resolved again as they were. -/
theorem Resolved.clauses {clauses : List Clause} (h : Resolved env clauses) :
    resolveClauses env (eraseClauses .resolution clauses) = clauses := by
  rw [eraseClauses_eq, resolveClauses_eq, List.map_map]
  exact (List.map_congr_left h).trans (List.map_id clauses)

/-! ## Free names of rows -/

section

variable {α : Type} [Resolving α]

/-- The free names of a list of one are those of it. -/
@[simp] theorem free_singleton (a : α) : free [a] = free a := List.append_nil _

/-- The free names of a list are those of its first and of its second part. -/
@[simp] theorem free_append (l m : List α) : free (l ++ m) = free l ++ free m :=
  List.flatMap_append

/-- The free names of an optional value are the same as a list. -/
@[simp] theorem free_toList (a : Option α) : free a.toList = free a := by
  cases a with
  | none => rfl
  | some a => exact List.append_nil _

end

/-- The free names of a call are those of its base and its arguments. -/
theorem free_call (base : Expression) (arguments : List Expression) :
    free (Expression.call base arguments placement) = free base ++ free arguments :=
  congrArg (free base ++ ·) (freeExpressions_eq arguments)

theorem free_make (type : Identifier) (fields : List MakeField) :
    free (Expression.make type fields placement) = free fields :=
  freeMakeFields_eq fields

theorem free_table (fields : List TableField) : free (Table.mk fields placement) = free fields :=
  freeTableFields_eq fields

/-- The free names of an optional expression are those of it where it is there. -/
theorem free_expression? (expression : Option Expression) :
    freeExpression? expression = free expression := by
  cases expression <;> rfl

/-- The free names of a block are those of its statements. -/
theorem free_block (statements : List Statement) (scope : Option (List Binding)) :
    (Block.mk statements scope).free = free statements :=
  freeStatements_eq statements

/-- The free names of a function are those of its name and its body. -/
theorem free_function (name : Option Expression) (isLocal : Bool) (parameters : List Parameter)
    (body : Block) :
    free (Function.mk name isLocal parameters body placement) = free name ++ body.free :=
  congrArg (· ++ body.free) (free_expression? name)

theorem free_return (arguments : List Expression) :
    free (Statement.returnStatement arguments placement) = free arguments :=
  freeExpressions_eq arguments

theorem free_if (clauses : List Clause) :
    free (Statement.ifStatement clauses placement) = free clauses :=
  freeClauses_eq clauses

theorem free_local (names : List Declarator) (values : List Expression) :
    free (Statement.localStatement names values placement) = free values :=
  freeExpressions_eq values

/-- The free names of an assignment are those of its targets and its values. -/
theorem free_assignment (targets values : List Expression) :
    free (Statement.assignment targets values placement) = free targets ++ free values :=
  congrArg₂ (· ++ ·) (freeExpressions_eq targets) (freeExpressions_eq values)

/-- The free names of a numeric loop are those of its bounds, its step and its body. -/
theorem free_numericFor (counter : Identifier) (first last : Expression) (step : Option Expression)
    (body : Block) :
    free (Statement.numericFor counter first last step body placement) =
      free first ++ free last ++ free step ++ body.free :=
  congrArg (free first ++ free last ++ · ++ body.free) (free_expression? step)

/-- The free names of a generic loop are those of its iterators and its body. -/
theorem free_genericFor (names : List Identifier) (iterators : List Expression) (body : Block) :
    free (Statement.genericFor names iterators body placement) = free iterators ++ body.free :=
  congrArg (· ++ body.free) (freeExpressions_eq iterators)

/-! ## Expressions -/

/-- A name that is used says whether it is in force. -/
theorem resolved_name (h : env name.name = name.isLocal) :
    Resolved env (Expression.identifier name) :=
  congrArg (fun isLocal => Expression.identifier { name with isLocal }) h

/-- A literal is resolved everywhere. -/
theorem resolved_literal (literal : Literal) : Resolved env (Expression.literal literal) := rfl

/-- A table is resolved as an expression if it is. -/
theorem resolved_tableExpression (htable : Resolved env table) :
    Resolved env (Expression.table table) :=
  congrArg Expression.table htable

/-- A function is resolved as an expression if it is. -/
theorem resolved_functionExpression {function : Function} (hfunction : Resolved env function) :
    Resolved env (Expression.function function) :=
  congrArg Expression.function hfunction

/-- A member is resolved if its base is and its name is not resolved at all. -/
theorem resolved_member (hbase : Resolved env base) (indexer : Indexer)
    (hname : name.erase .resolution = name) :
    Resolved env (Expression.member base indexer name placement) :=
  congrArg₂ (Expression.member · indexer · placement) hbase hname

theorem resolved_index (hbase : Resolved env base) (hindex : Resolved env index) :
    Resolved env (Expression.index base index placement) :=
  congrArg₂ (Expression.index · · placement) hbase hindex

/-- A call is resolved if its parts are. -/
theorem resolved_call (hbase : Resolved env base) (harguments : Resolved env arguments) :
    Resolved env (Expression.call base arguments placement) :=
  congrArg₂ (Expression.call · · placement) hbase harguments.expressions

theorem resolved_tableCall (hbase : Resolved env base) (htable : Resolved env table) :
    Resolved env (Expression.tableCall base table placement) :=
  congrArg₂ (Expression.tableCall · · placement) hbase htable

theorem resolved_stringCall (hbase : Resolved env base) (literal : Literal) :
    Resolved env (Expression.stringCall base literal placement) :=
  congrArg (Expression.stringCall · literal placement) hbase

/-- A use of `make` is resolved if its fields are and its type is not resolved at all. -/
theorem resolved_make {fields : List MakeField} (htype : type.erase .resolution = type)
    (hfields : Resolved env fields) : Resolved env (Expression.make type fields placement) :=
  congrArg₂ (Expression.make · · placement) htype hfields.makeFields

theorem resolved_unary (operator : UnaryOperator) (hvalue : Resolved env value) :
    Resolved env (Expression.unary operator value placement) :=
  congrArg (Expression.unary operator · placement) hvalue

theorem resolved_binary (operator : BinaryOperator) (hleft : Resolved env left)
    (hright : Resolved env right) :
    Resolved env (Expression.binary operator left right placement) :=
  congrArg₂ (Expression.binary operator · · placement) hleft hright

theorem resolved_logical (operator : LogicalOperator) (hleft : Resolved env left)
    (hright : Resolved env right) :
    Resolved env (Expression.logical operator left right placement) :=
  congrArg₂ (Expression.logical operator · · placement) hleft hright

/-! ## Fields and clauses -/

theorem resolved_table {fields : List TableField} (hfields : Resolved env fields) :
    Resolved env (Table.mk fields placement) :=
  congrArg (Table.mk · placement) hfields.tableFields

theorem resolved_keyed (hindex : Resolved env index) (hvalue : Resolved env value) :
    Resolved env (TableField.keyed index value placement) :=
  congrArg₂ (TableField.keyed · · placement) hindex hvalue

/-- A field with a name is resolved if its value is and its name is not resolved at all. -/
theorem resolved_named (hname : name.erase .resolution = name) (hvalue : Resolved env value) :
    Resolved env (TableField.named name value placement) :=
  congrArg₂ (TableField.named · · placement) hname hvalue

theorem resolved_positional (hvalue : Resolved env value) :
    Resolved env (TableField.positional value placement) :=
  congrArg (TableField.positional · placement) hvalue

theorem resolved_makeField (hname : name.erase .resolution = name) (hvalue : Resolved env value) :
    Resolved env (MakeField.mk name value placement) :=
  congrArg₂ (MakeField.mk · · placement) hname hvalue

/-- A clause is resolved if its condition is, and its body in a scope of its own. -/
theorem resolved_ifClause (hvalue : Resolved env value) (hbody : ResolvedBody env [] body) :
    Resolved env (Clause.ifClause value body placement) :=
  congrArg₂ (Clause.ifClause · · placement) hvalue hbody

theorem resolved_elseifClause (hvalue : Resolved env value) (hbody : ResolvedBody env [] body) :
    Resolved env (Clause.elseifClause value body placement) :=
  congrArg₂ (Clause.elseifClause · · placement) hvalue hbody

theorem resolved_elseClause (hbody : ResolvedBody env [] body) :
    Resolved env (Clause.elseClause body placement) :=
  congrArg (Clause.elseClause · placement) hbody

/-! ## Blocks and functions -/

/-- An empty row of statements is resolved. -/
theorem ResolvedRow.nil : ResolvedRow env [] := rfl

/-- A row of one statement is resolved if this is. -/
theorem ResolvedRow.singleton {statement : Statement} (h : Resolved env statement) :
    ResolvedRow env [statement] :=
  congrArg (fun statement => [statement]) h

/-- Statements behind others see what those declare. -/
theorem ResolvedRow.append {statements more : List Statement} (h : ResolvedRow env statements)
    (hmore : ResolvedRow (env.declare (statements.flatMap Statement.bindings)) more) :
    ResolvedRow env (statements ++ more) := by
  unfold ResolvedRow at h hmore ⊢
  have hbindings := bindings_eraseStatements statements
  rw [eraseStatements_eq] at h hmore hbindings ⊢
  rw [List.map_append, resolveStatements_append, h, hbindings, hmore]

/-- A block lists what it is entered with and what its statements declare. -/
theorem resolved_block {statements : List Statement}
    (h : ResolvedRow (env.declare first) statements) :
    ResolvedBody env first
      (.mk statements (some (first ++ statements.flatMap Statement.bindings))) := by
  have hbindings := bindings_eraseStatements statements
  exact congrArg₂ (fun row bindings => Block.mk row (some (first ++ bindings))) h hbindings

/-- Parameters that are declared are declared again as they were. -/
theorem Parameter.map_declared {parameters : List Parameter}
    (h : ∀ parameter ∈ parameters, (parameter.erase .resolution).declared = parameter) :
    (parameters.map (·.erase .resolution)).map Parameter.declared = parameters := by
  rw [List.map_map]
  exact (List.map_congr_left h).trans (List.map_id parameters)

/-- Parameters bind the same without their resolution. -/
theorem Parameter.flatMap_bindings (parameters : List Parameter) :
    (parameters.map (·.erase .resolution)).flatMap Parameter.bindings =
      parameters.flatMap Parameter.bindings := by
  rw [List.flatMap_map]
  simp only [Parameter.bindings_erase]

/-- A function is resolved if its name is, its parameters are declared, and its body is where they are bound. -/
theorem resolved_function {name : Option Expression} {isLocal : Bool} {parameters : List Parameter}
    (hname : Resolved env name)
    (hparameters : ∀ parameter ∈ parameters, (parameter.erase .resolution).declared = parameter)
    (hbody : ResolvedBody env (receiver name ++ parameters.flatMap Parameter.bindings) body) :
    Resolved env (Function.mk name isLocal parameters body placement) := by
  show Function.mk (resolveExpression? env (eraseExpression? .resolution name)) isLocal
    ((parameters.map (·.erase .resolution)).map Parameter.declared)
    ((body.erase .resolution).resolve env
      (receiver (eraseExpression? .resolution name) ++
        (parameters.map (·.erase .resolution)).flatMap Parameter.bindings)) placement = _
  rw [hname.expression?, Parameter.map_declared hparameters, receiver_erase,
    Parameter.flatMap_bindings, hbody]

/-! ## Statements -/

/-- A label is resolved if its name is not resolved at all. -/
theorem resolved_label (hname : name.erase .resolution = name) :
    Resolved env (Statement.labelStatement name placement) :=
  congrArg (Statement.labelStatement · placement) hname

/-- A break is resolved everywhere. -/
theorem resolved_break : Resolved env (Statement.breakStatement placement) := rfl

/-- A jump is resolved if its target is not resolved at all. -/
theorem resolved_goto (hname : name.erase .resolution = name) :
    Resolved env (Statement.gotoStatement name placement) :=
  congrArg (Statement.gotoStatement · placement) hname

/-- A return is resolved if its values are. -/
theorem resolved_return (harguments : Resolved env arguments) :
    Resolved env (Statement.returnStatement arguments placement) :=
  congrArg (Statement.returnStatement · placement) harguments.expressions

/-- A conditional is resolved if its clauses are. -/
theorem resolved_if {clauses : List Clause} (hclauses : Resolved env clauses) :
    Resolved env (Statement.ifStatement clauses placement) :=
  congrArg (Statement.ifStatement · placement) hclauses.clauses

/-- A `while` loop is resolved if its condition is, and its body in a scope of its own. -/
theorem resolved_while (hvalue : Resolved env value) (hbody : ResolvedBody env [] body) :
    Resolved env (Statement.whileStatement value body placement) :=
  congrArg₂ (Statement.whileStatement · · placement) hvalue hbody

/-- A `do` block is resolved if its body is in a scope of its own. -/
theorem resolved_do (hbody : ResolvedBody env [] body) :
    Resolved env (Statement.doStatement body placement) :=
  congrArg (Statement.doStatement · placement) hbody

/-- The condition of a `repeat` sees what the body declares. -/
theorem resolved_repeat (hbody : ResolvedBody env [] body)
    (hvalue : Resolved (env.declare body.bindings) value) :
    Resolved env (Statement.repeatStatement body value placement) := by
  have hbindings : (body.erase .resolution).bindings = body.bindings := by
    cases body
    exact bindings_eraseStatements _
  rw [← hbindings] at hvalue
  exact congrArg₂ (Statement.repeatStatement · · placement) hbody hvalue

/-- The values of a local declaration do not see what it declares. -/
theorem resolved_local {names : List Declarator}
    (hnames : ∀ name ∈ names, name.erase .resolution = name)
    (harguments : Resolved env arguments) :
    Resolved env (Statement.localStatement (names.map Declarator.declared) arguments placement) := by
  have hdeclared : ((names.map Declarator.declared).map (·.erase .resolution)).map
      Declarator.declared = names.map Declarator.declared := by
    rw [List.map_map, List.map_map]
    apply List.map_congr_left
    intro name hname
    cases name with
    | plain identifier => rfl
    | typed annotated =>
      have htype := congrArg TypedIdentifier.type (Declarator.typed.inj (hnames _ hname))
      exact congrArg (fun type => Declarator.typed
        ⟨annotated.name.declared, type, annotated.placement⟩) htype
  exact congrArg₂ (Statement.localStatement · · placement) hdeclared harguments.expressions

/-- An assignment is resolved if its targets and its values are. -/
theorem resolved_assignment (htargets : Resolved env targets) (harguments : Resolved env arguments) :
    Resolved env (Statement.assignment targets arguments placement) :=
  congrArg₂ (Statement.assignment · · placement) htargets.expressions harguments.expressions

/-- A call statement is resolved if its call is. -/
theorem resolved_callStatement (hvalue : Resolved env value) :
    Resolved env (Statement.callStatement value placement) :=
  congrArg (Statement.callStatement · placement) hvalue

/-- A local function is in force in itself. -/
theorem resolved_functionStatement {function : Function}
    (hfunction : Resolved (env.declare function.bindings) function) :
    Resolved env (Statement.functionStatement function) := by
  have hbindings : (function.erase .resolution).bindings = function.bindings := by
    obtain ⟨name, isLocal, _, _, _⟩ := function
    exact functionBindings_erase name isLocal
  rw [← hbindings] at hfunction
  exact congrArg Statement.functionStatement hfunction

/-- A numeric loop is resolved if its bounds and its step are, and its body where the counter is bound. -/
theorem resolved_numericFor {step : Option Expression} (hleft : Resolved env left)
    (hright : Resolved env right) (hstep : Resolved env step)
    (hbody : ResolvedBody env [name.binding] body) :
    Resolved env (Statement.numericFor name.declared left right step body placement) := by
  have hheader := congrArg₂ (fun left right step body =>
    Statement.numericFor name.declared left right step body placement) hleft hright
  exact congr (congr hheader hstep.expression?) hbody

/-- A generic loop is resolved if its iterators are, and its body where the names are bound. -/
theorem resolved_genericFor {names : List Identifier} (harguments : Resolved env arguments)
    (hbody : ResolvedBody env (names.map Identifier.binding) body) :
    Resolved env
      (Statement.genericFor (names.map Identifier.declared) arguments body placement) := by
  have hdeclared : ((names.map Identifier.declared).map (·.erase .resolution)).map
      Identifier.declared = names.map Identifier.declared := by
    rw [List.map_map, List.map_map]
    rfl
  have hbindings : ((names.map Identifier.declared).map (·.erase .resolution)).map
      Identifier.binding = names.map Identifier.binding := by
    rw [List.map_map, List.map_map]
    rfl
  rw [← hbindings] at hbody
  have hheader := congrArg₂ (fun names arguments body =>
    Statement.genericFor names arguments body placement) hdeclared harguments.expressions
  exact congr hheader hbody

/-- The declaration of a structure is resolved if none of its names is resolved at all. -/
theorem resolved_structure {fields : List StructureEntry} (hname : name.erase .resolution = name)
    (hfields : ∀ entry ∈ fields, entry.erase .resolution = entry) :
    Resolved env (Statement.structureDeclaration name fields placement) := by
  have hrow : fields.map (·.erase .resolution) = fields :=
    (List.map_congr_left hfields).trans (List.map_id fields)
  exact congrArg₂ (Statement.structureDeclaration · · placement) hname hrow

end LuaSyntax
