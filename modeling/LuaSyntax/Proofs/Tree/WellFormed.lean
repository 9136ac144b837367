import LuaSyntax.Dialect
import LuaSyntax.Proofs.Jumps.Frame

/-!
# Well-formed trees

Not every tree is the tree of a source. Some shapes are never written, such as a conditional statement
without a condition or a method that is not called; and some things may stand only in certain places:
three dots in a function that takes further arguments, `break` in a loop, `return` at the end of its
block, a label where none of its name is, and a `goto` where it does not enter the scope of a local.

What may stand in a place depends on little of what is around it. For an expression it is a
`Surroundings`, which is the same in all of a function, and for a statement a `Situation`.
-/

namespace LuaSyntax

/-- What there is to know of the function around an expression. -/
structure Surroundings where
  dialect : Dialect
  /-- Whether a `goto` must have a visible label. -/
  checksTargets : Bool
  /-- Whether the function takes arguments beyond its parameters. -/
  allowsVararg : Bool

/-- What there is to know of the blocks around a statement. -/
structure Situation extends Surroundings where
  inLoop : Bool
  /-- The labels that stand before the statement in the blocks around it. -/
  visible : List String

/-- The same place in a loop. -/
def Situation.loop (situation : Situation) : Situation := { situation with inLoop := true }

/-- The place behind a statement. -/
def Situation.behind (situation : Situation) (statement : Statement) : Situation :=
  { situation with visible := statement.label?.toList ++ situation.visible }

/-! ## Shapes -/

/-- Whether a parameter is three dots. -/
def Parameter.isVararg : Parameter → Bool
  | .vararg _ => true
  | _ => false

/-- A declared name has a type only in dialects that have types. -/
def Declarator.Fits (dialect : Dialect) : Declarator → Prop
  | .plain _ => True
  | .typed _ => dialect.has .typedIdentifiers = true

/-- A parameter has a type only in dialects that have types, and three dots are three dots. -/
def Parameter.Fits (dialect : Dialect) : Parameter → Prop
  | .plain _ => True
  | .typed _ => dialect.has .typedIdentifiers = true
  | .vararg literal => literal.value = .vararg

/-- Parameters that can stand together: three dots are the last. -/
def ParametersFit (dialect : Dialect) (parameters : List Parameter) : Prop :=
  (∀ parameter ∈ parameters, parameter.Fits dialect) ∧
    ∀ parameter ∈ parameters.dropLast, parameter.isVararg = false

/-- Whether an expression is a method, which has to be called. -/
def Expression.isMethod : Expression → Bool
  | .member _ .colon _ _ => true
  | _ => false

/-- A name and members of it. -/
def Expression.IsPath : Expression → Prop
  | .identifier _ => True
  | .member base .dot _ _ => base.IsPath
  | _ => False

/-- What a function statement may name: a path, or a method of one. -/
def Expression.IsFunctionName : Expression → Prop
  | .member base .colon _ _ => base.IsPath
  | expression => expression.IsPath

/-- The name of a function statement. -/
def Function.IsNamed : Function → Prop
  | .mk (some name) isLocal _ _ _ =>
    if isLocal then ∃ identifier, name = .identifier identifier else name.IsFunctionName
  | .mk none _ _ _ _ => False

/-- A function that is an expression has no name. -/
def Function.IsAnonymous : Function → Prop
  | .mk name isLocal _ _ _ => name = none ∧ isLocal = false

/-- Whether a clause has a condition but is not the first. -/
def Clause.isElseif : Clause → Bool
  | .elseifClause .. => true
  | _ => false

/-- The clauses of a conditional statement. -/
def ClausesFit (clauses : List Clause) : Prop :=
  ∃ condition body placement others last,
    clauses = .ifClause condition body placement :: others ++ last ∧
      (∀ clause ∈ others, clause.isElseif = true) ∧
        (last = [] ∨ ∃ body placement, last = [.elseClause body placement])

/-- Whether a statement is the last of its block. -/
def Statement.isLast (dialect : Dialect) : Statement → Bool
  | .returnStatement .. => true
  | .breakStatement _ => !dialect.has .relaxedBreak
  | _ => false

/-! ## Trees -/

mutual

/-- Whether an expression may stand in a place; a method only if it is `called`. -/
def Expression.WellFormed (around : Surroundings) (called : Bool) : Expression → Prop
  | .identifier _ => True
  | .literal literal => literal.value = .vararg → around.allowsVararg = true
  | .function function => function.IsAnonymous ∧ function.WellFormed around
  | .table table => table.WellFormed around
  | .binary _ left right _ => left.WellFormed around false ∧ right.WellFormed around false
  | .logical _ left right _ => left.WellFormed around false ∧ right.WellFormed around false
  | .unary _ argument _ => argument.WellFormed around false
  | .member base indexer _ _ =>
    (indexer = .colon → called = true) ∧ base.WellFormed around false
  | .index base index _ => base.WellFormed around false ∧ index.WellFormed around false
  | .call base arguments _ =>
    base.WellFormed around true ∧ wellFormedExpressions around arguments
  | .tableCall base argument _ => base.WellFormed around true ∧ argument.WellFormed around
  | .stringCall base argument _ =>
    base.WellFormed around true ∧ ∃ value, argument.value = .string value
  | .make _ fields _ => wellFormedMakeFields around fields

/-- Whether the parts of a table may stand in a place. -/
def Table.WellFormed (around : Surroundings) : Table → Prop
  | .mk fields _ => wellFormedTableFields around fields

/-- Whether the parts of a table field may stand in a place. -/
def TableField.WellFormed (around : Surroundings) : TableField → Prop
  | .keyed key value _ => key.WellFormed around false ∧ value.WellFormed around false
  | .named _ value _ => value.WellFormed around false
  | .positional value _ => value.WellFormed around false

/-- Whether the value of a structure field may stand in a place. -/
def MakeField.WellFormed (around : Surroundings) : MakeField → Prop
  | .mk _ value _ => value.WellFormed around false

/-- Whether a function may stand in a place. -/
def Function.WellFormed (around : Surroundings) : Function → Prop
  | .mk _ _ parameters body _ =>
    ParametersFit around.dialect parameters ∧
      body.WellFormed
        { around with
          allowsVararg := parameters.any Parameter.isVararg
          inLoop := false
          visible := [] } false ∧
        (around.dialect.has .labels = true → around.checksTargets = true → body.escaping = [])

/-- Whether a block may stand in a place. -/
def Block.WellFormed (situation : Situation) (isRepeat : Bool) : Block → Prop
  | .mk statements _ =>
    (situation.dialect.has .labels = true → Orderly situation.visible isRepeat statements) ∧
      (∀ statement ∈ statements.dropLast, statement.isLast situation.dialect = false) ∧
        wellFormedStatements situation statements

/-- Whether a clause may stand in a place. -/
def Clause.WellFormed (situation : Situation) : Clause → Prop
  | .ifClause condition body _ =>
    condition.WellFormed situation.toSurroundings false ∧ body.WellFormed situation false
  | .elseifClause condition body _ =>
    condition.WellFormed situation.toSurroundings false ∧ body.WellFormed situation false
  | .elseClause body _ => body.WellFormed situation false

/-- Whether a statement may stand in a place. -/
def Statement.WellFormed (situation : Situation) : Statement → Prop
  | .labelStatement _ _ => situation.dialect.has .labels = true
  | .breakStatement _ => situation.inLoop = true
  | .gotoStatement _ _ => True
  | .returnStatement arguments _ => wellFormedExpressions situation.toSurroundings arguments
  | .ifStatement clauses _ => ClausesFit clauses ∧ wellFormedClauses situation clauses
  | .whileStatement condition body _ =>
    condition.WellFormed situation.toSurroundings false ∧ body.WellFormed situation.loop false
  | .doStatement body _ => body.WellFormed situation false
  | .repeatStatement body condition _ =>
    body.WellFormed situation.loop true ∧ condition.WellFormed situation.toSurroundings false
  | .localStatement names values _ =>
    names ≠ [] ∧ (∀ name ∈ names, name.Fits situation.dialect) ∧
      wellFormedExpressions situation.toSurroundings values
  | .assignment targets values _ =>
    targets ≠ [] ∧ values ≠ [] ∧ (∀ target ∈ targets, target.isAssignable = true) ∧
      wellFormedExpressions situation.toSurroundings targets ∧
        wellFormedExpressions situation.toSurroundings values
  | .callStatement call _ =>
    call.isCall = true ∧ call.WellFormed situation.toSurroundings false
  | .functionStatement function =>
    function.IsNamed ∧ function.WellFormed situation.toSurroundings
  | .numericFor _ start stop step body _ =>
    start.WellFormed situation.toSurroundings false ∧
      stop.WellFormed situation.toSurroundings false ∧
        wellFormedExpression? situation.toSurroundings step ∧ body.WellFormed situation.loop false
  | .genericFor names iterators body _ =>
    names ≠ [] ∧ iterators ≠ [] ∧ wellFormedExpressions situation.toSurroundings iterators ∧
      body.WellFormed situation.loop false
  | .structureDeclaration _ _ _ => True

/-- Whether an expression may stand in a place, if there is one. -/
def wellFormedExpression? (around : Surroundings) : Option Expression → Prop
  | none => True
  | some expression => expression.WellFormed around false

/-- Whether some expressions may stand in a place. -/
def wellFormedExpressions (around : Surroundings) : List Expression → Prop
  | [] => True
  | expression :: rest => expression.WellFormed around false ∧ wellFormedExpressions around rest

/-- Whether some table fields may stand in a place. -/
def wellFormedTableFields (around : Surroundings) : List TableField → Prop
  | [] => True
  | field :: rest => field.WellFormed around ∧ wellFormedTableFields around rest

/-- Whether some structure fields may stand in a place. -/
def wellFormedMakeFields (around : Surroundings) : List MakeField → Prop
  | [] => True
  | field :: rest => field.WellFormed around ∧ wellFormedMakeFields around rest

/-- Whether some clauses may stand in a place. -/
def wellFormedClauses (situation : Situation) : List Clause → Prop
  | [] => True
  | clause :: rest => clause.WellFormed situation ∧ wellFormedClauses situation rest

/-- Whether some statements may stand in a place, one behind the other. -/
def wellFormedStatements (situation : Situation) : List Statement → Prop
  | [] => True
  | statement :: rest =>
    statement.WellFormed situation ∧ wellFormedStatements (situation.behind statement) rest

end

/-- A chunk is a function that takes any number of arguments. -/
def Chunk.WellFormed (dialect : Dialect) (checksTargets : Bool) (chunk : Chunk) : Prop :=
  chunk.body.WellFormed
      { dialect, checksTargets, allowsVararg := true, inLoop := false, visible := [] } false ∧
    (dialect.has .labels = true → checksTargets = true → chunk.body.escaping = [])

variable {around : Surroundings} {situation : Situation}

/-- Expressions are well-formed exactly when each of them is. -/
theorem wellFormedExpressions_iff {expressions : List Expression} :
    wellFormedExpressions around expressions ↔
      ∀ expression ∈ expressions, expression.WellFormed around false := by
  induction expressions with
  | nil => exact ⟨fun _ => List.forall_mem_nil _, fun _ => trivial⟩
  | cons expression rest ih => rw [wellFormedExpressions, ih, List.forall_mem_cons]

/-- Fields are well-formed exactly when each of them is. -/
theorem wellFormedTableFields_iff {fields : List TableField} :
    wellFormedTableFields around fields ↔ ∀ field ∈ fields, field.WellFormed around := by
  induction fields with
  | nil => exact ⟨fun _ => List.forall_mem_nil _, fun _ => trivial⟩
  | cons field rest ih => rw [wellFormedTableFields, ih, List.forall_mem_cons]

/-- Fields of `make` are well-formed exactly when each of them is. -/
theorem wellFormedMakeFields_iff {fields : List MakeField} :
    wellFormedMakeFields around fields ↔ ∀ field ∈ fields, field.WellFormed around := by
  induction fields with
  | nil => exact ⟨fun _ => List.forall_mem_nil _, fun _ => trivial⟩
  | cons field rest ih => rw [wellFormedMakeFields, ih, List.forall_mem_cons]

/-- Clauses are well-formed exactly when each of them is. -/
theorem wellFormedClauses_iff {clauses : List Clause} :
    wellFormedClauses situation clauses ↔ ∀ clause ∈ clauses, clause.WellFormed situation := by
  induction clauses with
  | nil => exact ⟨fun _ => List.forall_mem_nil _, fun _ => trivial⟩
  | cons clause rest ih => rw [wellFormedClauses, ih, List.forall_mem_cons]

/-- What is no method may stand everywhere if it may stand where it is called. -/
theorem Expression.WellFormed.uncalled {expression : Expression}
    (h : expression.WellFormed around true) (hmethod : expression.isMethod = false) :
    expression.WellFormed around false := by
  cases expression with
  | member base indexer =>
    cases indexer with
    | dot => exact ⟨nofun, h.2⟩
    | colon => cases hmethod
  | _ => exact h

/-- A block is well-formed if its labels and jumps are in order, and its statements well-formed and last only at its
end. -/
theorem Block.wellFormed_iff {isRepeat : Bool} {body : Block} :
    body.WellFormed situation isRepeat ↔
      (situation.dialect.has .labels = true →
        Orderly situation.visible isRepeat body.statements) ∧
      (∀ statement ∈ body.statements.dropLast, statement.isLast situation.dialect = false) ∧
      wellFormedStatements situation body.statements := by
  cases body
  exact Iff.rfl

end LuaSyntax
