import LuaSyntax.Proofs.Grammar.Scoping.Statement
import LuaSyntax.Proofs.Grammar.Twins.Books

/-!
# Resolution and places

What the names of a tree denote does not depend on where anything stands. So a tree whose names are resolved is,
but for places, what resolution makes of that which was written.
-/

namespace LuaSyntax

/-! ## Declarations -/

/-- A place more or less brings no other name into force. -/
theorem declare_unplaced (env : Environment) (bindings : List Binding) :
    env.declare (Erasable.erase .placements bindings) = env.declare bindings := by
  funext name
  exact congrArg (· || env name) List.any_map

/-- A name is declared before or after its place is taken away, with the same result. -/
theorem Identifier.declared_unplaced (name : Identifier) :
    (name.erase .resolution).declared.erase .placements = (name.erase .annotations).declared := rfl

/-- A name is bound before or after its place is taken away, with the same result. -/
theorem Identifier.binding_unplaced (name : Identifier) :
    Erasable.erase .placements (name.erase .resolution).binding = (name.erase .annotations).binding := rfl

theorem Declarator.declared_unplaced (name : Declarator) :
    (name.erase .resolution).declared.erase .placements = (name.erase .annotations).declared := by
  cases name <;> rfl

theorem Parameter.declared_unplaced (parameter : Parameter) :
    (parameter.erase .resolution).declared.erase .placements = (parameter.erase .annotations).declared := by
  cases parameter <;> rfl

/-- What a declared name binds has no annotations but its place. -/
theorem Declarator.binding_unplaced (name : Declarator) :
    (name.erase .annotations).identifier.binding = Erasable.erase .placements name.identifier.binding := by
  cases name <;> rfl

theorem Parameter.bindings_unplaced (parameter : Parameter) :
    (parameter.erase .annotations).bindings = Erasable.erase .placements parameter.bindings := by
  cases parameter <;> rfl

theorem receiver_unplaced (name : Option Expression) :
    receiver (eraseExpression? .annotations name) = Erasable.erase .placements (receiver name) := by
  cases name with
  | none => rfl
  | some name =>
    cases name with
    | member base indexer => cases indexer <;> rfl
    | _ => rfl

/-- What a function binds does not depend on annotations but for places. -/
theorem functionBindings_unplaced (name : Option Expression) (isLocal : Bool) :
    functionBindings (eraseExpression? .annotations name) isLocal =
      Erasable.erase .placements (functionBindings name isLocal) := by
  cases name with
  | none => rfl
  | some name => cases name <;> cases isLocal <;> rfl

/-- What the members of a row declare, all in a row. -/
theorem flatMap_unplaced {α : Type} {erase : α → α} {bindings : α → List Binding}
    (h : ∀ a, bindings (erase a) = Erasable.erase .placements (bindings a)) (row : List α) :
    (row.map erase).flatMap bindings = Erasable.erase .placements (row.flatMap bindings) := by
  rw [List.flatMap_map]
  simp only [h]
  exact List.map_flatMap.symm

/-- What a statement binds does not depend on annotations but for places. -/
theorem Statement.bindings_unplaced (statement : Statement) :
    (statement.erase .annotations).bindings = Erasable.erase .placements statement.bindings := by
  cases statement with
  | localStatement names =>
    show (names.map (·.erase .annotations)).map _ = (names.map _).map _
    rw [List.map_map, List.map_map]
    exact List.map_congr_left fun name _ => name.binding_unplaced
  | functionStatement function =>
    obtain ⟨name, isLocal, _, _, _⟩ := function
    exact functionBindings_unplaced name isLocal
  | _ => rfl

section

variable (env : Environment)

/-- The names that a statement brings into view do not depend on places. -/
theorem Statement.declare_unplaced (statement : Statement) :
    env.declare (statement.erase .annotations).bindings = env.declare (statement.erase .resolution).bindings := by
  rw [statement.bindings_unplaced, LuaSyntax.declare_unplaced, statement.bindings_erase]

/-- The names that a function brings into view do not depend on places. -/
theorem Function.declare_unplaced (function : Function) :
    env.declare (function.erase .annotations).bindings = env.declare (function.erase .resolution).bindings :=
  Statement.declare_unplaced env (.functionStatement function)

/-- The names that a block brings into view do not depend on places. -/
theorem Block.declare_unplaced (body : Block) :
    env.declare (body.erase .annotations).bindings = env.declare (body.erase .resolution).bindings := by
  obtain ⟨statements, scope⟩ := body
  show env.declare ((eraseStatements .annotations statements).flatMap Statement.bindings) =
    env.declare ((eraseStatements .resolution statements).flatMap Statement.bindings)
  rw [bindings_eraseStatements, eraseStatements_eq, flatMap_unplaced Statement.bindings_unplaced,
    LuaSyntax.declare_unplaced]

end

/-! ## Resolved trees -/

/-- What the members of a row are where they are declared, each without its place. -/
theorem map_unplaced {α β : Type} {forget plain : α → α} {declared : α → β} {unplace : β → β}
    (h : ∀ a, unplace (declared (forget a)) = declared (plain a)) (row : List α) :
    ((row.map forget).map declared).map unplace = (row.map plain).map declared := by
  rw [List.map_map, List.map_map, List.map_map]
  exact List.map_congr_left fun a _ => h a

/-- A block lists what it is entered with and what its statements declare. -/
theorem resolve_block_unplaced {env : Environment} {first : List Binding} {statements : List Statement}
    (h : eraseStatements .placements
        (resolveStatements (env.declare first) (eraseStatements .resolution statements)) =
      resolveStatements (env.declare first) (eraseStatements .annotations statements))
    (scope : Option (List Binding)) :
    (((Block.mk statements scope).erase .resolution).resolve env first).erase .placements =
      ((Block.mk statements scope).erase .annotations).resolve env (Erasable.erase .placements first) := by
  have hrow := h.trans (congrArg (resolveStatements · _) (declare_unplaced env first).symm)
  have hlisted : Erasable.erase .placements
        (first ++ (eraseStatements .resolution statements).flatMap Statement.bindings) =
      Erasable.erase .placements first ++ (eraseStatements .annotations statements).flatMap Statement.bindings := by
    rw [bindings_eraseStatements, eraseStatements_eq, flatMap_unplaced Statement.bindings_unplaced]
    exact List.map_append
  exact congrArg₂ (fun row bindings => Block.mk row (some bindings)) hrow hlisted

/-- The body of a function is entered with its receiver and its parameters. -/
theorem resolve_function_unplaced {env : Environment} {name : Option Expression} {parameters : List Parameter}
    {body : Block}
    (hname : eraseExpression? .placements (resolveExpression? env (eraseExpression? .resolution name)) =
      resolveExpression? env (eraseExpression? .annotations name))
    (hbody : ∀ first, ((body.erase .resolution).resolve env first).erase .placements =
      (body.erase .annotations).resolve env (Erasable.erase .placements first))
    (isLocal : Bool) (placement : Placement) :
    (((Function.mk name isLocal parameters body placement).erase .resolution).resolve env).erase .placements =
      ((Function.mk name isLocal parameters body placement).erase .annotations).resolve env := by
  have hfirst : Erasable.erase .placements (receiver (eraseExpression? .resolution name) ++
        (parameters.map (·.erase .resolution)).flatMap Parameter.bindings) =
      receiver (eraseExpression? .annotations name) ++
        (parameters.map (·.erase .annotations)).flatMap Parameter.bindings := by
    rw [receiver_erase, Parameter.flatMap_bindings, receiver_unplaced,
      flatMap_unplaced Parameter.bindings_unplaced]
    exact List.map_append
  have hheader := congrArg₂ (Function.mk · isLocal · · .none) hname
    (map_unplaced Parameter.declared_unplaced parameters)
  exact (congr hheader ((hbody _).trans (congrArg ((body.erase .annotations).resolve env) hfirst)) :)

mutual

/-- An expression is resolved before or after its places are taken away, with the same result. -/
theorem Expression.resolve_unplaced (env : Environment) : (expression : Expression) →
    ((expression.erase .resolution).resolve env).erase .placements = (expression.erase .annotations).resolve env
  | .identifier _ => rfl
  | .literal _ => rfl
  | .function inner => congrArg Expression.function (inner.resolve_unplaced env)
  | .table inner => congrArg Expression.table (inner.resolve_unplaced env)
  | .binary operator left right _ =>
    congrArg₂ (Expression.binary operator · · .none) (left.resolve_unplaced env) (right.resolve_unplaced env)
  | .logical operator left right _ =>
    congrArg₂ (Expression.logical operator · · .none) (left.resolve_unplaced env) (right.resolve_unplaced env)
  | .unary operator argument _ =>
    congrArg (Expression.unary operator · .none) (argument.resolve_unplaced env)
  | .member base indexer name _ =>
    congrArg (Expression.member · indexer (name.erase .annotations) .none) (base.resolve_unplaced env)
  | .index base index _ =>
    congrArg₂ (Expression.index · · .none) (base.resolve_unplaced env) (index.resolve_unplaced env)
  | .call base arguments _ => congrArg₂ (Expression.call · · .none) (base.resolve_unplaced env)
    (resolveExpressions_unplaced env arguments)
  | .tableCall base argument _ =>
    congrArg₂ (Expression.tableCall · · .none) (base.resolve_unplaced env) (argument.resolve_unplaced env)
  | .stringCall base argument _ =>
    congrArg (Expression.stringCall · (argument.erase .annotations) .none) (base.resolve_unplaced env)
  | .make type fields _ =>
    congrArg (Expression.make (type.erase .annotations) · .none) (resolveMakeFields_unplaced env fields)

/-- Expressions are resolved before or after their places are taken away, one by one. -/
theorem resolveExpressions_unplaced (env : Environment) : (expressions : List Expression) →
    eraseExpressions .placements (resolveExpressions env (eraseExpressions .resolution expressions)) =
      resolveExpressions env (eraseExpressions .annotations expressions)
  | [] => rfl
  | expression :: rest =>
    congrArg₂ List.cons (expression.resolve_unplaced env) (resolveExpressions_unplaced env rest)

theorem resolveExpression?_unplaced (env : Environment) : (expression : Option Expression) →
    eraseExpression? .placements (resolveExpression? env (eraseExpression? .resolution expression)) =
      resolveExpression? env (eraseExpression? .annotations expression)
  | none => rfl
  | some expression => congrArg some (expression.resolve_unplaced env)

/-- The fields of a table are resolved before or after their places are taken away. -/
theorem Table.resolve_unplaced (env : Environment) : (table : Table) →
    ((table.erase .resolution).resolve env).erase .placements = (table.erase .annotations).resolve env
  | .mk fields _ => congrArg (Table.mk · .none) (resolveTableFields_unplaced env fields)

theorem TableField.resolve_unplaced (env : Environment) : (field : TableField) →
    ((field.erase .resolution).resolve env).erase .placements = (field.erase .annotations).resolve env
  | .keyed key value _ =>
    congrArg₂ (TableField.keyed · · .none) (key.resolve_unplaced env) (value.resolve_unplaced env)
  | .named key value _ =>
    congrArg (TableField.named (key.erase .annotations) · .none) (value.resolve_unplaced env)
  | .positional value _ => congrArg (TableField.positional · .none) (value.resolve_unplaced env)

theorem resolveTableFields_unplaced (env : Environment) : (fields : List TableField) →
    eraseTableFields .placements (resolveTableFields env (eraseTableFields .resolution fields)) =
      resolveTableFields env (eraseTableFields .annotations fields)
  | [] => rfl
  | field :: rest => congrArg₂ List.cons (field.resolve_unplaced env) (resolveTableFields_unplaced env rest)

theorem MakeField.resolve_unplaced (env : Environment) : (field : MakeField) →
    ((field.erase .resolution).resolve env).erase .placements = (field.erase .annotations).resolve env
  | .mk key value _ => congrArg (MakeField.mk (key.erase .annotations) · .none) (value.resolve_unplaced env)

theorem resolveMakeFields_unplaced (env : Environment) : (fields : List MakeField) →
    eraseMakeFields .placements (resolveMakeFields env (eraseMakeFields .resolution fields)) =
      resolveMakeFields env (eraseMakeFields .annotations fields)
  | [] => rfl
  | field :: rest => congrArg₂ List.cons (field.resolve_unplaced env) (resolveMakeFields_unplaced env rest)

/-- A function is resolved before or after its places are taken away, in the same new frames. -/
theorem Function.resolve_unplaced (env : Environment) : (function : Function) →
    ((function.erase .resolution).resolve env).erase .placements = (function.erase .annotations).resolve env
  | .mk name isLocal _ body placement =>
    resolve_function_unplaced (resolveExpression?_unplaced env name) (body.resolve_unplaced env) isLocal placement

/-- A block is resolved before or after its places are taken away, behind names that lose theirs too. -/
theorem Block.resolve_unplaced (env : Environment) (first : List Binding) : (block : Block) →
    ((block.erase .resolution).resolve env first).erase .placements =
      (block.erase .annotations).resolve env (Erasable.erase .placements first)
  | .mk statements scope =>
    resolve_block_unplaced (resolveStatements_unplaced (env.declare first) statements) scope

/-- A clause is resolved before or after its places are taken away. -/
theorem Clause.resolve_unplaced (env : Environment) : (clause : Clause) →
    ((clause.erase .resolution).resolve env).erase .placements = (clause.erase .annotations).resolve env
  | .ifClause condition body _ =>
    congrArg₂ (Clause.ifClause · · .none) (condition.resolve_unplaced env) (body.resolve_unplaced env [])
  | .elseifClause condition body _ =>
    congrArg₂ (Clause.elseifClause · · .none) (condition.resolve_unplaced env) (body.resolve_unplaced env [])
  | .elseClause body _ => congrArg (Clause.elseClause · .none) (body.resolve_unplaced env [])

theorem resolveClauses_unplaced (env : Environment) : (clauses : List Clause) →
    eraseClauses .placements (resolveClauses env (eraseClauses .resolution clauses)) =
      resolveClauses env (eraseClauses .annotations clauses)
  | [] => rfl
  | clause :: rest => congrArg₂ List.cons (clause.resolve_unplaced env) (resolveClauses_unplaced env rest)

/-- A statement is resolved before or after its places are taken away. -/
theorem Statement.resolve_unplaced (env : Environment) : (statement : Statement) →
    ((statement.erase .resolution).resolve env).erase .placements = (statement.erase .annotations).resolve env
  | .labelStatement _ _ => rfl
  | .breakStatement _ => rfl
  | .gotoStatement _ _ => rfl
  | .returnStatement arguments _ =>
    congrArg (Statement.returnStatement · .none) (resolveExpressions_unplaced env arguments)
  | .ifStatement clauses _ => congrArg (Statement.ifStatement · .none) (resolveClauses_unplaced env clauses)
  | .whileStatement condition body _ => congrArg₂ (Statement.whileStatement · · .none)
    (condition.resolve_unplaced env) (body.resolve_unplaced env [])
  | .doStatement body _ => congrArg (Statement.doStatement · .none) (body.resolve_unplaced env [])
  | .repeatStatement body condition _ => congrArg₂ (Statement.repeatStatement · · .none)
    (body.resolve_unplaced env []) ((condition.resolve_unplaced (env.declare (body.erase .resolution).bindings)).trans
      (congrArg (condition.erase .annotations).resolve (body.declare_unplaced env).symm))
  | .localStatement names values _ => congrArg₂ (Statement.localStatement · · .none)
    (map_unplaced Declarator.declared_unplaced names) (resolveExpressions_unplaced env values)
  | .assignment targets values _ => congrArg₂ (Statement.assignment · · .none)
    (resolveExpressions_unplaced env targets) (resolveExpressions_unplaced env values)
  | .callStatement call _ => congrArg (Statement.callStatement · .none) (call.resolve_unplaced env)
  | .functionStatement function => congrArg Statement.functionStatement
    ((function.resolve_unplaced (env.declare (function.erase .resolution).bindings)).trans
      (congrArg (function.erase .annotations).resolve (function.declare_unplaced env).symm))
  | .numericFor counter start stop step body _ => by
    have hrange := congrArg₂ (Statement.numericFor (counter.erase .annotations).declared · · · · .none)
      (start.resolve_unplaced env) (stop.resolve_unplaced env)
    have hheader := congr hrange (resolveExpression?_unplaced env step)
    exact (congr hheader (body.resolve_unplaced env [(counter.erase .resolution).binding]) :)
  | .genericFor names iterators body _ => by
    have hheader := congrArg₂ (Statement.genericFor · · · .none)
      (map_unplaced Identifier.declared_unplaced names) (resolveExpressions_unplaced env iterators)
    have hfirst : Erasable.erase .placements ((names.map (·.erase .resolution)).map Identifier.binding) =
        (names.map (·.erase .annotations)).map Identifier.binding := map_unplaced Identifier.binding_unplaced names
    exact (congr hheader ((body.resolve_unplaced env _).trans
      (congrArg ((body.erase .annotations).resolve env) hfirst)) :)
  | .structureDeclaration name fields _ => congrArg (Statement.structureDeclaration (name.erase .annotations) · .none)
    (List.map_map.trans (List.map_congr_left fun _ _ => rfl))

/-- Statements are resolved before or after their places are taken away, each behind those before it. -/
theorem resolveStatements_unplaced (env : Environment) : (statements : List Statement) →
    eraseStatements .placements (resolveStatements env (eraseStatements .resolution statements)) =
      resolveStatements env (eraseStatements .annotations statements)
  | [] => rfl
  | statement :: rest => congrArg₂ List.cons (statement.resolve_unplaced env)
    ((resolveStatements_unplaced (env.declare (statement.erase .resolution).bindings) rest).trans
      (congrArg (resolveStatements · (eraseStatements .annotations rest)) (statement.declare_unplaced env).symm))

end

/-! ## Uses -/

/-- What is used in two parts of a tree is used in the tree, with its places or without. -/
theorem append_unplaced {names names' more more' : List Identifier}
    (h : names' = Erasable.erase .placements names) (hmore : more' = Erasable.erase .placements more) :
    names' ++ more' = Erasable.erase .placements (names ++ more) := by
  rw [h, hmore]
  exact List.map_append.symm

mutual

/-- The free names of an expression lose their places with it. -/
theorem Expression.free_unplaced : (expression : Expression) →
    (expression.erase .placements).free = Erasable.erase .placements expression.free
  | .identifier ⟨_, true, _⟩ => rfl
  | .identifier ⟨_, false, _⟩ => rfl
  | .literal _ => rfl
  | .function inner => inner.free_unplaced
  | .table inner => inner.free_unplaced
  | .binary _ left right _ => append_unplaced left.free_unplaced right.free_unplaced
  | .logical _ left right _ => append_unplaced left.free_unplaced right.free_unplaced
  | .unary _ argument _ => argument.free_unplaced
  | .member base _ _ _ => base.free_unplaced
  | .index base index _ => append_unplaced base.free_unplaced index.free_unplaced
  | .call base arguments _ => append_unplaced base.free_unplaced (freeExpressions_unplaced arguments)
  | .tableCall base argument _ => append_unplaced base.free_unplaced argument.free_unplaced
  | .stringCall base _ _ => base.free_unplaced
  | .make _ fields _ => freeMakeFields_unplaced fields

/-- The free names of expressions lose their places with them. -/
theorem freeExpressions_unplaced : (expressions : List Expression) →
    freeExpressions (eraseExpressions .placements expressions) =
      Erasable.erase .placements (freeExpressions expressions)
  | [] => rfl
  | expression :: rest => append_unplaced expression.free_unplaced (freeExpressions_unplaced rest)

theorem freeExpression?_unplaced : (expression : Option Expression) →
    freeExpression? (eraseExpression? .placements expression) =
      Erasable.erase .placements (freeExpression? expression)
  | none => rfl
  | some expression => expression.free_unplaced

/-- The free names of a table lose their places with it. -/
theorem Table.free_unplaced : (table : Table) →
    (table.erase .placements).free = Erasable.erase .placements table.free
  | .mk fields _ => freeTableFields_unplaced fields

/-- The free names of a field lose their places with it. -/
theorem TableField.free_unplaced : (field : TableField) →
    (field.erase .placements).free = Erasable.erase .placements field.free
  | .keyed key value _ => append_unplaced key.free_unplaced value.free_unplaced
  | .named _ value _ => value.free_unplaced
  | .positional value _ => value.free_unplaced

theorem freeTableFields_unplaced : (fields : List TableField) →
    freeTableFields (eraseTableFields .placements fields) = Erasable.erase .placements (freeTableFields fields)
  | [] => rfl
  | field :: rest => append_unplaced field.free_unplaced (freeTableFields_unplaced rest)

/-- The free names of a field of a structure lose their places with it. -/
theorem MakeField.free_unplaced : (field : MakeField) →
    (field.erase .placements).free = Erasable.erase .placements field.free
  | .mk _ value _ => value.free_unplaced

theorem freeMakeFields_unplaced : (fields : List MakeField) →
    freeMakeFields (eraseMakeFields .placements fields) = Erasable.erase .placements (freeMakeFields fields)
  | [] => rfl
  | field :: rest => append_unplaced field.free_unplaced (freeMakeFields_unplaced rest)

/-- The free names of a function lose their places with it. -/
theorem Function.free_unplaced : (function : Function) →
    (function.erase .placements).free = Erasable.erase .placements function.free
  | .mk name _ _ body _ => append_unplaced (freeExpression?_unplaced name) body.free_unplaced

/-- The free names of a block lose their places with it. -/
theorem Block.free_unplaced : (block : Block) →
    (block.erase .placements).free = Erasable.erase .placements block.free
  | .mk statements _ => freeStatements_unplaced statements

/-- The free names of a clause lose their places with it. -/
theorem Clause.free_unplaced : (clause : Clause) →
    (clause.erase .placements).free = Erasable.erase .placements clause.free
  | .ifClause condition body _ => append_unplaced condition.free_unplaced body.free_unplaced
  | .elseifClause condition body _ => append_unplaced condition.free_unplaced body.free_unplaced
  | .elseClause body _ => body.free_unplaced

theorem freeClauses_unplaced : (clauses : List Clause) →
    freeClauses (eraseClauses .placements clauses) = Erasable.erase .placements (freeClauses clauses)
  | [] => rfl
  | clause :: rest => append_unplaced clause.free_unplaced (freeClauses_unplaced rest)

/-- The free names of a statement lose their places with it. -/
theorem Statement.free_unplaced : (statement : Statement) →
    (statement.erase .placements).free = Erasable.erase .placements statement.free
  | .labelStatement _ _ => rfl
  | .breakStatement _ => rfl
  | .gotoStatement _ _ => rfl
  | .returnStatement arguments _ => freeExpressions_unplaced arguments
  | .ifStatement clauses _ => freeClauses_unplaced clauses
  | .whileStatement condition body _ => append_unplaced condition.free_unplaced body.free_unplaced
  | .doStatement body _ => body.free_unplaced
  | .repeatStatement body condition _ => append_unplaced body.free_unplaced condition.free_unplaced
  | .localStatement _ values _ => freeExpressions_unplaced values
  | .assignment targets values _ =>
    append_unplaced (freeExpressions_unplaced targets) (freeExpressions_unplaced values)
  | .callStatement call _ => call.free_unplaced
  | .functionStatement function => function.free_unplaced
  | .numericFor _ start stop step body _ => append_unplaced (append_unplaced
    (append_unplaced start.free_unplaced stop.free_unplaced) (freeExpression?_unplaced step)) body.free_unplaced
  | .genericFor _ iterators body _ => append_unplaced (freeExpressions_unplaced iterators) body.free_unplaced
  | .structureDeclaration _ _ _ => rfl

/-- The free names of statements lose their places with them. -/
theorem freeStatements_unplaced : (statements : List Statement) →
    freeStatements (eraseStatements .placements statements) =
      Erasable.erase .placements (freeStatements statements)
  | [] => rfl
  | statement :: rest => append_unplaced statement.free_unplaced (freeStatements_unplaced rest)

end

/-- Which names are new does not depend on where they stand. -/
theorem note_unplaced (known : List Identifier) (name : Identifier) :
    note (Erasable.erase .placements known) (name.erase .placements) =
      Erasable.erase .placements (note known name) := by
  have hknown : (Erasable.erase .placements known).any (fun other => other.name == name.name) =
      known.any fun other => other.name == name.name := List.any_map
  show (if (Erasable.erase .placements known).any (fun other => other.name == name.name) then _ else _) = _
  rw [hknown, note]
  split
  · rfl
  · exact append_unplaced rfl rfl

/-- Which names are noted first does not depend on their places. -/
theorem noted_unplaced (known names : List Identifier) :
    noted (Erasable.erase .placements known) (Erasable.erase .placements names) =
      Erasable.erase .placements (noted known names) := by
  induction names generalizing known with
  | nil => rfl
  | cons name rest ih =>
    show noted (note (Erasable.erase .placements known) (name.erase .placements)) _ = _
    rw [note_unplaced]
    exact ih _

/-! ## Chunks -/

/-- A chunk without its comments, and without the places of what is in it. -/
def Chunk.unplaced (chunk : Chunk) : Chunk := { Erasable.erase .placements chunk with comments := none }

/-- Where its names are resolved, a chunk without places says what resolution makes of that which was written. -/
theorem Chunk.unplaced_of_resolved {chunk : Chunk} (h : chunk.forget.resolve = chunk) :
    let body := (chunk.body.erase .annotations).resolve .empty []
    chunk.unplaced = ⟨body, none, some (noted [] body.free), .none⟩ := by
  have hresolved : (chunk.body.erase .resolution).resolve .empty [] = chunk.body := congrArg Chunk.body h
  have hglobals : some (noted [] ((chunk.body.erase .resolution).resolve .empty []).free) = chunk.globals :=
    congrArg Chunk.globals h
  have hbody : chunk.body.erase .placements = (chunk.body.erase .annotations).resolve .empty [] :=
    (congrArg (·.erase .placements) hresolved.symm).trans (chunk.body.resolve_unplaced .empty [])
  have hlisted : Erasable.erase .placements chunk.globals =
      some (noted [] (chunk.body.erase .placements).free) := by
    rw [← hglobals, hresolved, chunk.body.free_unplaced]
    exact congrArg some (noted_unplaced [] chunk.body.free).symm
  rw [hbody] at hlisted
  exact congrArg₂ (Chunk.mk · none · .none) hbody hlisted

/-- Chunks that say the same but for places: the same was written, and their names are resolved in both. -/
theorem Chunk.unplaced_eq_of_resolved {chunk chunk' : Chunk} (h : chunk.forget.resolve = chunk)
    (h' : chunk'.forget.resolve = chunk')
    (hbody : chunk.body.erase .annotations = chunk'.body.erase .annotations) : chunk.unplaced = chunk'.unplaced := by
  rw [unplaced_of_resolved h, unplaced_of_resolved h', hbody]

end LuaSyntax
