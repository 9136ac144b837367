import LuaSyntax.Proofs.Tree.Demands
import LuaSyntax.Proofs.Tree.Erasure
import LuaSyntax.Proofs.Tree.WellFormed

/-!
# Features of a tree, and trees of other dialects

Which features of a dialect a tree needs does not depend on its annotations: a tree needs no others than a tree
that is the same but for these.

Whether a tree is well-formed depends on little of its dialect: whether there are labels, where `break` may
stand, and whether declared names may have types. A tree stays well-formed in a dialect that has the first two
alike and lacks no types.
-/

namespace LuaSyntax

/-- Asks of a tree that it needs no features but known ones, and nothing else. -/
def Demands.features (known : Feature → Prop) : Demands where
  feature := known
  identifier _ := True
  literal _ := True
  comment _ := True
  placement _ := True

variable {known : Feature → Prop} {erasure : Erasure}

/-- What is erased from a declarator does not change the features it needs. -/
theorem Declarator.meets_erase (name : Declarator) :
    (name.erase erasure).Meets (.features known) ↔ name.Meets (.features known) := by
  cases name <;> exact Iff.rfl

/-- What is erased from a parameter does not change the features it needs. -/
theorem Parameter.meets_erase (parameter : Parameter) :
    (parameter.erase erasure).Meets (.features known) ↔ parameter.Meets (.features known) := by
  cases parameter <;> exact Iff.rfl

/-- What is asked of all in a list is asked of all in the list with annotations erased. -/
theorem forall_mem_erase {α : Type} {erase : α → α} {meets : α → Prop} (h : ∀ a, meets (erase a) ↔ meets a)
    (list : List α) : (∀ a ∈ list.map erase, meets a) ↔ ∀ a ∈ list, meets a := by
  rw [List.forall_mem_map]
  exact forall₂_congr fun a _ => h a

/-- Nothing is asked of the names in a scope. -/
theorem meets_scope (scope : Option (List Binding)) :
    ∀ bindings ∈ scope, ∀ binding ∈ bindings, binding.Meets (.features known) :=
  fun _ _ _ _ _ _ => trivial

mutual

/-- What is erased from an expression does not change the features it needs. -/
theorem Expression.meets_erase : (expression : Expression) →
    ((expression.erase erasure).Meets (.features known) ↔ expression.Meets (.features known))
  | .identifier _ => Iff.rfl
  | .literal _ => Iff.rfl
  | .function inner => inner.meets_erase
  | .table inner => inner.meets_erase
  | .binary _ left right _ => and_congr Iff.rfl (and_congr left.meets_erase (and_congr right.meets_erase Iff.rfl))
  | .logical _ left right _ => and_congr left.meets_erase (and_congr right.meets_erase Iff.rfl)
  | .unary _ argument _ => and_congr Iff.rfl (and_congr argument.meets_erase Iff.rfl)
  | .member base _ _ _ => and_congr base.meets_erase Iff.rfl
  | .index base index _ => and_congr base.meets_erase (and_congr index.meets_erase Iff.rfl)
  | .call base arguments _ => and_congr base.meets_erase (and_congr (expressionsMeet_erase arguments) Iff.rfl)
  | .tableCall base argument _ => and_congr base.meets_erase (and_congr argument.meets_erase Iff.rfl)
  | .stringCall base _ _ => and_congr base.meets_erase Iff.rfl
  | .make _ fields _ =>
    and_congr Iff.rfl (and_congr Iff.rfl (and_congr (makeFieldsMeet_erase fields) Iff.rfl))

/-- What is erased from expressions does not change the features they need. -/
theorem expressionsMeet_erase : (expressions : List Expression) →
    (expressionsMeet (.features known) (eraseExpressions erasure expressions) ↔
      expressionsMeet (.features known) expressions)
  | [] => Iff.rfl
  | expression :: rest => and_congr expression.meets_erase (expressionsMeet_erase rest)

theorem expressionMeets?_erase : (expression : Option Expression) →
    (expressionMeets? (.features known) (eraseExpression? erasure expression) ↔
      expressionMeets? (.features known) expression)
  | none => Iff.rfl
  | some expression => expression.meets_erase

/-- What is erased from a table does not change the features it needs. -/
theorem Table.meets_erase : (table : Table) →
    ((table.erase erasure).Meets (.features known) ↔ table.Meets (.features known))
  | .mk fields _ => and_congr (tableFieldsMeet_erase fields) Iff.rfl

/-- What is erased from a field does not change the features it needs. -/
theorem TableField.meets_erase : (field : TableField) →
    ((field.erase erasure).Meets (.features known) ↔ field.Meets (.features known))
  | .keyed key value _ => and_congr key.meets_erase (and_congr value.meets_erase Iff.rfl)
  | .named _ value _ => and_congr Iff.rfl (and_congr value.meets_erase Iff.rfl)
  | .positional value _ => and_congr value.meets_erase Iff.rfl

theorem tableFieldsMeet_erase : (fields : List TableField) →
    (tableFieldsMeet (.features known) (eraseTableFields erasure fields) ↔
      tableFieldsMeet (.features known) fields)
  | [] => Iff.rfl
  | field :: rest => and_congr field.meets_erase (tableFieldsMeet_erase rest)

/-- What is erased from a field of `make` does not change the features it needs. -/
theorem MakeField.meets_erase : (field : MakeField) →
    ((field.erase erasure).Meets (.features known) ↔ field.Meets (.features known))
  | .mk _ value _ => and_congr Iff.rfl (and_congr value.meets_erase Iff.rfl)

theorem makeFieldsMeet_erase : (fields : List MakeField) →
    (makeFieldsMeet (.features known) (eraseMakeFields erasure fields) ↔ makeFieldsMeet (.features known) fields)
  | [] => Iff.rfl
  | field :: rest => and_congr field.meets_erase (makeFieldsMeet_erase rest)

/-- What is erased from a function does not change the features it needs. -/
theorem Function.meets_erase : (function : Function) →
    ((function.erase erasure).Meets (.features known) ↔ function.Meets (.features known))
  | .mk name _ parameters body _ =>
    and_congr (expressionMeets?_erase name) (and_congr (forall_mem_erase Parameter.meets_erase parameters)
      (and_congr body.meets_erase Iff.rfl))

/-- What is erased from a block does not change the features it needs. -/
theorem Block.meets_erase : (block : Block) →
    ((block.erase erasure).Meets (.features known) ↔ block.Meets (.features known))
  | .mk statements scope =>
    and_congr (statementsMeet_erase statements) (iff_of_true (meets_scope _) (meets_scope scope))

/-- What is erased from a clause does not change the features it needs. -/
theorem Clause.meets_erase : (clause : Clause) →
    ((clause.erase erasure).Meets (.features known) ↔ clause.Meets (.features known))
  | .ifClause condition body _ => and_congr condition.meets_erase (and_congr body.meets_erase Iff.rfl)
  | .elseifClause condition body _ => and_congr condition.meets_erase (and_congr body.meets_erase Iff.rfl)
  | .elseClause body _ => and_congr body.meets_erase Iff.rfl

theorem clausesMeet_erase : (clauses : List Clause) →
    (clausesMeet (.features known) (eraseClauses erasure clauses) ↔ clausesMeet (.features known) clauses)
  | [] => Iff.rfl
  | clause :: rest => and_congr clause.meets_erase (clausesMeet_erase rest)

/-- What is erased from a statement does not change the features it needs. -/
theorem Statement.meets_erase : (statement : Statement) →
    ((statement.erase erasure).Meets (.features known) ↔ statement.Meets (.features known))
  | .labelStatement _ _ => Iff.rfl
  | .breakStatement _ => Iff.rfl
  | .gotoStatement _ _ => Iff.rfl
  | .returnStatement arguments _ => and_congr (expressionsMeet_erase arguments) Iff.rfl
  | .ifStatement clauses _ => and_congr (clausesMeet_erase clauses) Iff.rfl
  | .whileStatement condition body _ => and_congr condition.meets_erase (and_congr body.meets_erase Iff.rfl)
  | .doStatement body _ => and_congr body.meets_erase Iff.rfl
  | .repeatStatement body condition _ => and_congr body.meets_erase (and_congr condition.meets_erase Iff.rfl)
  | .localStatement names values _ => and_congr (forall_mem_erase Declarator.meets_erase names)
    (and_congr (expressionsMeet_erase values) Iff.rfl)
  | .assignment targets values _ =>
    and_congr (expressionsMeet_erase targets) (and_congr (expressionsMeet_erase values) Iff.rfl)
  | .callStatement call _ => and_congr call.meets_erase Iff.rfl
  | .functionStatement function => function.meets_erase
  | .numericFor _ start stop step body _ => and_congr Iff.rfl (and_congr start.meets_erase
    (and_congr stop.meets_erase (and_congr (expressionMeets?_erase step) (and_congr body.meets_erase Iff.rfl))))
  | .genericFor _ iterators body _ => and_congr (iff_of_true (fun _ _ => trivial) fun _ _ => trivial)
    (and_congr (expressionsMeet_erase iterators) (and_congr body.meets_erase Iff.rfl))
  | .structureDeclaration _ _ _ => and_congr Iff.rfl (and_congr Iff.rfl (and_congr
    (iff_of_true (fun _ _ => ⟨trivial, trivial, trivial⟩) fun _ _ => ⟨trivial, trivial, trivial⟩) Iff.rfl))

/-- What is erased from statements does not change the features they need. -/
theorem statementsMeet_erase : (statements : List Statement) →
    (statementsMeet (.features known) (eraseStatements erasure statements) ↔
      statementsMeet (.features known) statements)
  | [] => Iff.rfl
  | statement :: rest => and_congr statement.meets_erase (statementsMeet_erase rest)

end

/-- A chunk meets demands on features if its body does. -/
theorem Chunk.meets_features {chunk : Chunk} (h : chunk.body.Meets (.features known)) :
    chunk.Meets (.features known) :=
  ⟨h, fun _ _ _ _ => trivial, fun _ _ _ _ => trivial, trivial⟩

/-! ## Well-formed trees of other dialects -/

/-- Dialects of which the second takes for well-formed what the first does. -/
structure Dialect.Admits (dialect other : Dialect) : Prop where
  labels : other.has .labels = dialect.has .labels
  relaxedBreak : other.has .relaxedBreak = dialect.has .relaxedBreak
  typed : dialect.has .typedIdentifiers = true → other.has .typedIdentifiers = true

/-- The same surroundings in another dialect. -/
def Surroundings.under (around : Surroundings) (dialect : Dialect) : Surroundings := { around with dialect }

/-- The same situation in another dialect. -/
def Situation.under (situation : Situation) (dialect : Dialect) : Situation := { situation with dialect }

variable {other : Dialect}

/-- A declarator that fits a dialect fits one that admits it. -/
theorem Declarator.Fits.admitted {dialect : Dialect} (h : dialect.Admits other) {name : Declarator}
    (hfits : name.Fits dialect) : name.Fits other := by
  cases name with
  | plain => trivial
  | typed => exact h.typed hfits

/-- Parameters that fit a dialect fit one that admits it. -/
theorem ParametersFit.admitted {dialect : Dialect} (h : dialect.Admits other) {parameters : List Parameter}
    (hfit : ParametersFit dialect parameters) : ParametersFit other parameters := by
  refine ⟨fun parameter hmem => ?_, hfit.2⟩
  have hfits := hfit.1 parameter hmem
  cases parameter with
  | plain => trivial
  | typed => exact h.typed hfits
  | vararg => exact hfits

/-- A statement is last in a dialect exactly when it is in one that admits it. -/
theorem Statement.isLast_admitted {dialect : Dialect} (h : dialect.Admits other) (statement : Statement) :
    statement.isLast other = statement.isLast dialect := by
  cases statement <;> first | rfl | exact congrArg not h.relaxedBreak

mutual

/-- An expression that is well-formed in a dialect is so in one that admits it. -/
theorem Expression.WellFormed.admitted {around : Surroundings} :
    {expression : Expression} → {called : Bool} → expression.WellFormed around called →
      around.dialect.Admits other → expression.WellFormed (around.under other) called
  | .identifier _, _, _, _ => trivial
  | .literal _, _, hliteral, _ => hliteral
  | .function _, _, hfunction, h => ⟨hfunction.1, hfunction.2.admitted h⟩
  | .table table, _, htable, h => @Table.WellFormed.admitted _ table htable h
  | .binary _ _ _ _, _, hoperands, h => ⟨hoperands.1.admitted h, hoperands.2.admitted h⟩
  | .logical _ _ _ _, _, hoperands, h => ⟨hoperands.1.admitted h, hoperands.2.admitted h⟩
  | .unary _ argument _, _, hargument, h =>
    @Expression.WellFormed.admitted _ argument false hargument h
  | .member _ _ _ _, _, hmember, h => ⟨hmember.1, hmember.2.admitted h⟩
  | .index _ _ _, _, hindex, h => ⟨hindex.1.admitted h, hindex.2.admitted h⟩
  | .call _ _ _, _, hcall, h => ⟨hcall.1.admitted h, wellFormedExpressions_admitted hcall.2 h⟩
  | .tableCall _ _ _, _, hcall, h => ⟨hcall.1.admitted h, hcall.2.admitted h⟩
  | .stringCall _ _ _, _, hcall, h => ⟨hcall.1.admitted h, hcall.2⟩
  | .make _ _ _, _, hfields, h => wellFormedMakeFields_admitted hfields h

/-- A table that is well-formed in a dialect is so in one that admits it. -/
theorem Table.WellFormed.admitted {around : Surroundings} :
    {table : Table} → table.WellFormed around →
      around.dialect.Admits other → table.WellFormed (around.under other)
  | .mk _ _, hfields, h => wellFormedTableFields_admitted hfields h

/-- A field that is well-formed in a dialect is so in one that admits it. -/
theorem TableField.WellFormed.admitted {around : Surroundings} :
    {field : TableField} → field.WellFormed around →
      around.dialect.Admits other → field.WellFormed (around.under other)
  | .keyed _ _ _, hfield, h => ⟨hfield.1.admitted h, hfield.2.admitted h⟩
  | .named _ value _, hvalue, h =>
    @Expression.WellFormed.admitted _ value false hvalue h
  | .positional value _, hvalue, h =>
    @Expression.WellFormed.admitted _ value false hvalue h

/-- A field of `make` that is well-formed in a dialect is so in one that admits it. -/
theorem MakeField.WellFormed.admitted {around : Surroundings} :
    {field : MakeField} → field.WellFormed around →
      around.dialect.Admits other → field.WellFormed (around.under other)
  | .mk _ value _, hvalue, h =>
    @Expression.WellFormed.admitted _ value false hvalue h

/-- A function that is well-formed in a dialect is so in one that admits it. -/
theorem Function.WellFormed.admitted {around : Surroundings} :
    {function : Function} → function.WellFormed around →
      around.dialect.Admits other → function.WellFormed (around.under other)
  | .mk _ _ _ _ _, ⟨hparameters, hbody, hescaping⟩, h =>
    ⟨hparameters.admitted h, hbody.admitted h, fun hlabels => hescaping (h.labels ▸ hlabels)⟩

/-- A block that is well-formed in a dialect is so in one that admits it. -/
theorem Block.WellFormed.admitted {situation : Situation} {isRepeat : Bool} :
    {block : Block} → block.WellFormed situation isRepeat →
      situation.dialect.Admits other → block.WellFormed (situation.under other) isRepeat
  | .mk _ _, ⟨horderly, hlast, hstatements⟩, h =>
    ⟨fun hlabels => horderly (h.labels ▸ hlabels),
      fun statement hmem => (statement.isLast_admitted h).trans (hlast statement hmem),
      wellFormedStatements_admitted hstatements h⟩

/-- A clause that is well-formed in a dialect is so in one that admits it. -/
theorem Clause.WellFormed.admitted {situation : Situation} :
    {clause : Clause} → clause.WellFormed situation →
      situation.dialect.Admits other → clause.WellFormed (situation.under other)
  | .ifClause _ _ _, hclause, h => ⟨hclause.1.admitted h, hclause.2.admitted h⟩
  | .elseifClause _ _ _, hclause, h => ⟨hclause.1.admitted h, hclause.2.admitted h⟩
  | .elseClause body _, hbody, h => @Block.WellFormed.admitted _ false body hbody h

/-- A statement that is well-formed in a dialect is so in one that admits it. -/
theorem Statement.WellFormed.admitted {situation : Situation} :
    {statement : Statement} → statement.WellFormed situation →
      situation.dialect.Admits other → statement.WellFormed (situation.under other)
  | .labelStatement _ _, hlabels, h => h.labels.trans hlabels
  | .breakStatement _, hloop, _ => hloop
  | .gotoStatement _ _, _, _ => trivial
  | .returnStatement _ _, harguments, h => wellFormedExpressions_admitted harguments h
  | .ifStatement _ _, hclauses, h => ⟨hclauses.1, wellFormedClauses_admitted hclauses.2 h⟩
  | .whileStatement _ _ _, hloop, h => ⟨hloop.1.admitted h, hloop.2.admitted h⟩
  | .doStatement body _, hbody, h => @Block.WellFormed.admitted _ false body hbody h
  | .repeatStatement _ _ _, hloop, h => ⟨hloop.1.admitted h, hloop.2.admitted h⟩
  | .localStatement _ _ _, ⟨hnames, hfit, hvalues⟩, h =>
    ⟨hnames, fun name hmem => (hfit name hmem).admitted h, wellFormedExpressions_admitted hvalues h⟩
  | .assignment _ _ _, ⟨htargets, hvalues, hassignable, hplaces, hassigned⟩, h =>
    ⟨htargets, hvalues, hassignable, wellFormedExpressions_admitted hplaces h,
      wellFormedExpressions_admitted hassigned h⟩
  | .callStatement _ _, hcall, h => ⟨hcall.1, hcall.2.admitted h⟩
  | .functionStatement _, hfunction, h => ⟨hfunction.1, hfunction.2.admitted h⟩
  | .numericFor _ _ _ _ _ _, ⟨hstart, hstop, hstep, hbody⟩, h =>
    ⟨hstart.admitted h, hstop.admitted h, wellFormedExpression?_admitted hstep h, hbody.admitted h⟩
  | .genericFor _ _ _ _, ⟨hnames, hiterators, hvalues, hbody⟩, h =>
    ⟨hnames, hiterators, wellFormedExpressions_admitted hvalues h, hbody.admitted h⟩
  | .structureDeclaration _ _ _, _, _ => trivial

theorem wellFormedExpression?_admitted {around : Surroundings} :
    {expression : Option Expression} → wellFormedExpression? around expression →
      around.dialect.Admits other → wellFormedExpression? (around.under other) expression
  | none, _, _ => trivial
  | some expression, hexpression, h =>
    @Expression.WellFormed.admitted _ expression false hexpression h

/-- Expressions that are well-formed in a dialect are so in one that admits it. -/
theorem wellFormedExpressions_admitted {around : Surroundings} :
    {expressions : List Expression} → wellFormedExpressions around expressions →
      around.dialect.Admits other → wellFormedExpressions (around.under other) expressions
  | [], _, _ => trivial
  | _ :: _, hexpressions, h => ⟨hexpressions.1.admitted h, wellFormedExpressions_admitted hexpressions.2 h⟩

theorem wellFormedTableFields_admitted {around : Surroundings} :
    {fields : List TableField} → wellFormedTableFields around fields →
      around.dialect.Admits other → wellFormedTableFields (around.under other) fields
  | [], _, _ => trivial
  | _ :: _, hfields, h => ⟨hfields.1.admitted h, wellFormedTableFields_admitted hfields.2 h⟩

theorem wellFormedMakeFields_admitted {around : Surroundings} :
    {fields : List MakeField} → wellFormedMakeFields around fields →
      around.dialect.Admits other → wellFormedMakeFields (around.under other) fields
  | [], _, _ => trivial
  | _ :: _, hfields, h => ⟨hfields.1.admitted h, wellFormedMakeFields_admitted hfields.2 h⟩

theorem wellFormedClauses_admitted {situation : Situation} :
    {clauses : List Clause} → wellFormedClauses situation clauses →
      situation.dialect.Admits other → wellFormedClauses (situation.under other) clauses
  | [], _, _ => trivial
  | _ :: _, hclauses, h => ⟨hclauses.1.admitted h, wellFormedClauses_admitted hclauses.2 h⟩

/-- Statements that are well-formed in a dialect are so in one that admits it. -/
theorem wellFormedStatements_admitted {situation : Situation} :
    {statements : List Statement} → wellFormedStatements situation statements →
      situation.dialect.Admits other → wellFormedStatements (situation.under other) statements
  | [], _, _ => trivial
  | _ :: _, hstatements, h => ⟨hstatements.1.admitted h, wellFormedStatements_admitted hstatements.2 h⟩

end

/-- A chunk of a dialect is well-formed in one that takes for well-formed what that does. -/
theorem Chunk.WellFormed.admitted {dialect : Dialect} (h : dialect.Admits other) {checksTargets : Bool}
    {chunk : Chunk} (hchunk : chunk.WellFormed dialect checksTargets) : chunk.WellFormed other checksTargets :=
  ⟨hchunk.1.admitted h, fun hlabels => hchunk.2 (h.labels ▸ hlabels)⟩

end LuaSyntax
