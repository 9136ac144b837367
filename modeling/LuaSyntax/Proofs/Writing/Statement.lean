import Mathlib.Logic.Relation
import LuaSyntax.Grammar.Expression
import LuaSyntax.Proofs.Writing.Point
import LuaSyntax.Proofs.Grammar.Levels

/-!
# How expressions and statements are written

The grammar once more, as relations between a tree and the tokens it is written with: `Operand e p q`
says that the tokens from one point to another write `e`. A tree says which tokens there are and in
which order. It leaves open what it has no node for: parentheses around an expression, which have to be
there where the operators around it would take it apart, and separators.

A writing is always as long as it can be. Where something may end or go on, it ends only if the token
behind it does not make it go on; this is what the conditions on that token say.

All nesting goes through statements and expressions, so what is between them is a relation over a pair
of relations, `Writing`, as it is a rule over a pair of rules in the grammar.

A statement is written with its keywords, and its parts between them. What begins with a name or a
parenthesis is an assignment or a call; both begin with something that is more than an expression in
parentheses, since those leave no node that a statement could hold.

Like the rules, the relations are built level by level: `Writing.ofDepth dialect n` is how that is written
which nests no deeper than `n`. What is missing has a level too, since it has to be looked for.
-/

namespace LuaSyntax

/-- How what is nested inside a thing is written. -/
structure Writing where
  /-- A statement; an empty one is none. -/
  statement : Option Statement → Point → Point → Prop
  /-- An expression, as far as its operators bind more tightly than a level. -/
  expression : Nat → Expression → Point → Point → Prop
  /-- Nothing, where an expression may be missing. -/
  absent : Point → Prop

/-- The parameter that a declared name is. -/
def Declarator.parameter : Declarator → Parameter
  | .plain identifier => .plain identifier
  | .typed identifier => .typed identifier

/-- Whether an expression begins with a token. -/
def Token.startsExpression (token : Token) : Bool :=
  (Grammar.literalValue? token.value).isSome || (UnaryOperator.ofToken? token.value).isSome ||
    token.kind == .identifier || token.isWord .functionWord || token.isWord .hmakeWord ||
    token.isSymbol .leftBrace || token.isSymbol .leftParen

namespace Writing

open Grammar (endsBlock startsSuffix joined)

/-! ## Rows -/

section Rows

variable {α : Type}

/-- Things with a comma before each. -/
inductive Commas (item : α → Point → Point → Prop) : List α → Point → Point → Prop where
  | nil {p : Point} : ¬ p.Faces Symbol.comma → Commas item [] p p
  | cons {a : α} {rest : List α} {p q r : Point} : p.Faces Symbol.comma → item a p.step q →
      Commas item rest q r → Commas item (a :: rest) p r

/-- One or more things with commas between them. -/
inductive Row (item : α → Point → Point → Prop) : List α → Point → Point → Prop where
  | mk {a : α} {rest : List α} {p q r : Point} : item a p q → Commas item rest q r →
      Row item (a :: rest) p r

/-- A token that separates the fields of a table or a structure stands behind a point. -/
def Separates (p : Point) : Prop := p.Faces Symbol.comma ∨ p.Faces Symbol.semicolon

/-- Fields with separators between them, and perhaps one behind the last. -/
inductive Fields (stop : Point → Prop) (item : α → Point → Point → Prop) :
    List α → Point → Point → Prop where
  | nil {p : Point} : stop p → Fields stop item [] p p
  | last {a : α} {p q : Point} : item a p q → ¬ Separates q → Fields stop item [a] p q
  | more {a : α} {rest : List α} {p q r : Point} : item a p q → Separates q →
      Fields stop item rest q.step r → Fields stop item (a :: rest) p r

end Rows

/-- A name. -/
inductive Name : Identifier → Point → Point → Prop where
  | mk {name : Identifier} {p : Point} : p.Names name → Name name p p.step

/-- A declared name, with a type behind a colon in dialects that have them. -/
inductive Declared (dialect : Dialect) : Declarator → Point → Point → Prop where
  | plain {name : Identifier} {p : Point} : p.Names name →
      ¬ (dialect.has .typedIdentifiers = true ∧ p.step.Faces Symbol.colon) →
      Declared dialect (.plain name) p p.step
  | typed {name type : Identifier} {placement : Placement} {p : Point} :
      dialect.has .typedIdentifiers = true → p.Names name → p.step.Faces Symbol.colon →
      p.step.step.Names type → Declared dialect (.typed ⟨name, type, placement⟩) p p.step.step.step

variable (dialect : Dialect) (inner : Writing)

/-! ## Blocks and functions -/

/-- The statements of a block, with a semicolon behind any of them. Nothing follows a `return`, nor a
`break` in dialects that have it last only. -/
inductive Statements : List Statement → Point → Point → Prop where
  | nil {p : Point} : endsBlock p.token = true → Statements [] p p
  | last {statement : Option Statement} {p q : Point} : p.Faces ReservedWord.returnWord →
      inner.statement statement p q → Statements statement.toList p q
  | lastBreak {statement : Option Statement} {p q : Point} : p.Faces ReservedWord.breakWord →
      dialect.has .relaxedBreak = false → inner.statement statement p q →
      Statements statement.toList p (q.skip Symbol.semicolon)
  | more {statement : Option Statement} {rest : List Statement} {p q r : Point} :
      endsBlock p.token = false → ¬ p.Faces ReservedWord.returnWord →
      ¬ (p.Faces ReservedWord.breakWord ∧ dialect.has .relaxedBreak = false) →
      inner.statement statement p q → Statements rest (q.skip Symbol.semicolon) r →
      Statements (statement.toList ++ rest) p r

/-- One or more parameters and the closing parenthesis. Three dots are the last of them. -/
inductive ParameterRow : List Parameter → Point → Point → Prop where
  | last {name : Declarator} {p q : Point} : Declared dialect name p q →
      q.Faces Symbol.rightParen → ParameterRow [name.parameter] p q.step
  | dots {literal : Literal} {p : Point} : p.Denotes literal → literal.value = .vararg →
      p.step.Faces Symbol.rightParen → ParameterRow [.vararg literal] p p.step.step
  | more {name : Declarator} {rest : List Parameter} {p q r : Point} : Declared dialect name p q →
      q.Faces Symbol.comma → ParameterRow rest q.step r → ParameterRow (name.parameter :: rest) p r

/-- Parameters with their parentheses. -/
inductive Parameters : List Parameter → Point → Point → Prop where
  | none {p : Point} : p.Faces Symbol.leftParen → p.step.Faces Symbol.rightParen →
      Parameters [] p p.step.step
  | some {parameters : List Parameter} {p q : Point} : p.Faces Symbol.leftParen →
      ParameterRow dialect parameters p.step q → Parameters parameters p q

/-- A function behind its name. -/
inductive FunctionBody : Function → Point → Point → Prop where
  | mk {name : Option Expression} {isLocal : Bool} {parameters : List Parameter} {body : Block}
      {placement : Placement} {p q r : Point} : Parameters dialect parameters p q →
      Statements dialect inner body.statements q r → r.Faces ReservedWord.endWord →
      FunctionBody (.mk name isLocal parameters body placement) p r.step

/-- A name and members of it. -/
inductive NamePath : Expression → Point → Point → Prop where
  | name {name : Identifier} {p : Point} : p.Names name → NamePath (.identifier name) p p.step
  | member {base : Expression} {name : Identifier} {placement : Placement} {p q : Point} :
      NamePath base p q → q.Faces Symbol.dot → q.step.Names name →
      NamePath (.member base .dot name placement) p q.step.step

/-- The name of a function statement. -/
inductive FunctionName : Expression → Point → Point → Prop where
  | function {name : Expression} {p q : Point} : NamePath name p q → FunctionName name p q
  | method {base : Expression} {name : Identifier} {placement : Placement} {p q : Point} :
      NamePath base p q → q.Faces Symbol.colon → q.step.Names name →
      FunctionName (.member base .colon name placement) p q.step.step

/-! ## Lists and constructors -/

/-- Any number of expressions with commas between them. -/
inductive OptionalList : List Expression → Point → Point → Prop where
  | none {p : Point} : inner.absent p → OptionalList [] p p
  | some {expressions : List Expression} {p q : Point} :
      Row (inner.expression 0) expressions p q → OptionalList expressions p q

/-- A field of a table. -/
inductive Field : TableField → Point → Point → Prop where
  | keyed {key value : Expression} {placement : Placement} {p q r : Point} :
      p.Faces Symbol.leftBracket → inner.expression 0 key p.step q → q.Faces Symbol.rightBracket →
      q.step.Faces Symbol.assign → inner.expression 0 value q.step.step r →
      Field (.keyed key value placement) p r
  | named {key : Identifier} {value : Expression} {placement : Placement} {p q : Point} :
      p.Names key → p.step.Faces Symbol.assign → inner.expression 0 value p.step.step q →
      Field (.named key value placement) p q
  | positional {value : Expression} {placement : Placement} {p q : Point} :
      ¬ p.Faces Symbol.leftBracket → ¬ (p.token.kind = .identifier ∧ p.step.Faces Symbol.assign) →
      inner.expression 0 value p q → Field (.positional value placement) p q

/-- A table behind its opening brace. -/
inductive TableBody : Table → Point → Point → Prop where
  | mk {fields : List TableField} {placement : Placement} {p q : Point} :
      Fields (fun p => inner.absent p ∧ ¬ p.Faces Symbol.leftBracket) (Field inner) fields p q →
      q.Faces Symbol.rightBrace → TableBody (.mk fields placement) p q.step

/-- A field of a structure. -/
inductive StructureField : MakeField → Point → Point → Prop where
  | mk {key : Identifier} {value : Expression} {placement : Placement} {p q : Point} :
      p.Names key → p.step.Faces Symbol.assign → inner.expression 0 value p.step.step q →
      StructureField (.mk key value placement) p q

/-! ## Suffixes -/

/-- The arguments of a call, which make a call of what stands before them. -/
inductive Arguments : Expression × Point → Expression × Point → Prop where
  | list {base : Expression} {arguments : List Expression} {placement : Placement} {p q : Point} :
      p.Faces Symbol.leftParen →
      (dialect.has .flexibleLineEnd = false → p.token.start.line = p.previous.stop.line) →
      OptionalList inner arguments p.step q → q.Faces Symbol.rightParen →
      Arguments (base, p) (.call base arguments placement, q.step)
  | table {base : Expression} {table : Table} {placement : Placement} {p q : Point} :
      p.Faces Symbol.leftBrace → TableBody inner table p.step q →
      Arguments (base, p) (.tableCall base table placement, q)
  | string {base : Expression} {literal : Literal} {value : String} {placement : Placement}
      {p : Point} : p.Denotes literal → literal.value = .string value →
      Arguments (base, p) (.stringCall base literal placement, p.step)

/-- One suffix and what it makes of what stands before it. -/
inductive Suffix : Expression × Point → Expression × Point → Prop where
  | index {base index : Expression} {placement : Placement} {p q : Point} :
      p.Faces Symbol.leftBracket → inner.expression 0 index p.step q →
      q.Faces Symbol.rightBracket → Suffix (base, p) (.index base index placement, q.step)
  | member {base : Expression} {name : Identifier} {placement : Placement} {p : Point} :
      p.Faces Symbol.dot → p.step.Names name →
      Suffix (base, p) (.member base .dot name placement, p.step.step)
  | method {base : Expression} {name : Identifier} {placement : Placement} {p : Point}
      {called : Expression × Point} : p.Faces Symbol.colon → p.step.Names name →
      Arguments dialect inner (.member base .colon name placement, p.step.step) called →
      Suffix (base, p) called
  | arguments {base : Expression} {p : Point} {called : Expression × Point} :
      Arguments dialect inner (base, p) called → Suffix (base, p) called

/-- Any number of suffixes. -/
def Suffixes : Expression × Point → Expression × Point → Prop :=
  Relation.ReflTransGen (Suffix dialect inner)

/-- An expression in parentheses, which leave no node. -/
inductive Enclosed : Expression → Point → Point → Prop where
  | mk {expression : Expression} {p q : Point} : p.Faces Symbol.leftParen →
      inner.expression 0 expression p.step q → q.Faces Symbol.rightParen →
      Enclosed expression p q.step

/-- Something with all its suffixes, and whether it is nothing but an expression in parentheses. -/
inductive Suffixed : Bool → Expression → Point → Point → Prop where
  | name {name : Identifier} {expression : Expression} {p q : Point} : p.Names name →
      Suffixes dialect inner (.identifier name, p.step) (expression, q) →
      startsSuffix q.token = false → Suffixed false expression p q
  | enclosed {base expression : Expression} {p q r : Point} : Enclosed inner base p q →
      Suffixes dialect inner (base, q) (expression, r) → startsSuffix r.token = false →
      Suffixed (!startsSuffix q.token) expression p r

/-! ## Operators -/

/-- An operand with the operators before it. -/
inductive Operand : Expression → Point → Point → Prop where
  | literal {literal : Literal} {p : Point} : p.Denotes literal → Operand (.literal literal) p p.step
  | function {parameters : List Parameter} {body : Block} {placement : Placement} {p q : Point} :
      p.Faces ReservedWord.functionWord →
      FunctionBody dialect inner (.mk none false parameters body placement) p.step q →
      Operand (.function (.mk none false parameters body placement)) p q
  | table {table : Table} {p q : Point} : p.Faces Symbol.leftBrace → TableBody inner table p.step q →
      Operand (.table table) p q
  | make {type : Identifier} {fields : List MakeField} {placement : Placement} {p q : Point} :
      p.Faces ReservedWord.hmakeWord → p.step.Names type → p.step.step.Faces Symbol.leftBrace →
      Fields (fun p => p.Faces Symbol.rightBrace) (StructureField inner) fields p.step.step.step q →
      q.Faces Symbol.rightBrace → Operand (.make type fields placement) p q.step
  | suffixed {bare : Bool} {expression : Expression} {p q : Point} :
      Suffixed dialect inner bare expression p q → Operand expression p q
  | unary {operator : UnaryOperator} {argument : Expression} {placement : Placement} {p q : Point} :
      UnaryOperator.ofToken? p.token.value = some operator →
      inner.expression UnaryOperator.operandLevel argument p.step q →
      Operand (.unary operator argument placement) p q

/-- An operator that binds more tightly than a level, with its right operand, and what it makes of
what stands before it. -/
inductive Joining (level : Nat) : Expression × Point → Expression × Point → Prop where
  | mk {operator : Operator} {left right : Expression} {placement : Placement} {p q : Point} :
      Operator.ofToken? p.token.value = some operator → level < operator.level →
      inner.expression operator.rightLevel right p.step q →
      Joining level (left, p) (joined operator left right placement, q)

/-- An expression, as far as its operators bind more tightly than a level. -/
inductive Operation (level : Nat) : Expression → Point → Point → Prop where
  | mk {first expression : Expression} {p q r : Point} : Operand dialect inner first p q →
      Relation.ReflTransGen (Joining inner level) (first, q) (expression, r) →
      (∀ operator, Operator.ofToken? r.token.value = some operator → operator.level ≤ level) →
      Operation level expression p r

end Writing

/-! ## Statements and chunks -/

/-- Whether a `goto` stands behind a point that is a keyword only because a name follows it. -/
def Point.FacesContextualGoto (dialect : Dialect) (p : Point) : Prop :=
  dialect.has .contextualGoto = true ∧ p.token.name? = some "goto" ∧ p.ahead.kind = .identifier

namespace Writing

variable (dialect : Dialect) (inner : Writing)

/-- A further condition of a conditional statement. -/
inductive ElseifClause : Clause → Point → Point → Prop where
  | mk {condition : Expression} {body : Block} {placement : Placement} {p q r : Point} :
      p.Faces ReservedWord.elseifWord → inner.expression 0 condition p.step q →
      q.Faces ReservedWord.thenWord → Statements dialect inner body.statements q.step r →
      ElseifClause (.elseifClause condition body placement) p r

/-- Any number of further conditions. -/
inductive ElseifClauses : List Clause → Point → Point → Prop where
  | nil {p : Point} : ¬ p.Faces ReservedWord.elseifWord → ElseifClauses [] p p
  | cons {clause : Clause} {rest : List Clause} {p q r : Point} :
      ElseifClause dialect inner clause p q → ElseifClauses rest q r →
      ElseifClauses (clause :: rest) p r

/-- The last clause of a conditional statement, if it has one without a condition. -/
inductive ElseClause : List Clause → Point → Point → Prop where
  | none {p : Point} : ¬ p.Faces ReservedWord.elseWord → ElseClause [] p p
  | some {body : Block} {placement : Placement} {p q : Point} : p.Faces ReservedWord.elseWord →
      Statements dialect inner body.statements p.step q →
      ElseClause [.elseClause body placement] p q

/-- The step of a loop that counts, if it is written. -/
inductive LoopStep : Option Expression → Point → Point → Prop where
  | none {p : Point} : ¬ p.Faces Symbol.comma → LoopStep none p p
  | some {step : Expression} {p q : Point} : p.Faces Symbol.comma →
      inner.expression 0 step p.step q → LoopStep (some step) p q

/-- What a `return` gives, behind the keyword. -/
inductive Returned : List Expression → Point → Point → Prop where
  | nothing {p : Point} : p.Faces ReservedWord.endWord → Returned [] p p
  | list {arguments : List Expression} {p q : Point} : ¬ p.Faces ReservedWord.endWord →
      OptionalList inner arguments p q → Returned arguments p (q.skip Symbol.semicolon)

/-- The values of a local declaration, if it has any. -/
inductive InitialValues : List Expression → Point → Point → Prop where
  | none {p : Point} : ¬ p.Faces Symbol.assign → InitialValues [] p p
  | some {values : List Expression} {p q : Point} : p.Faces Symbol.assign →
      Row (inner.expression 0) values p.step q → InitialValues values p q

/-- A target of an assignment. -/
inductive Target : Expression → Point → Point → Prop where
  | mk {target : Expression} {p q : Point} : Suffixed dialect inner false target p q →
      target.isAssignable = true → Target target p q

/-- A field of a structure declaration. -/
inductive Entry : StructureEntry → Point → Point → Prop where
  | mk {key type : Identifier} {placement : Placement} {p : Point} :
      p.Names key → p.step.Faces Symbol.colon → p.step.step.Names type →
      Entry ⟨key, type, placement⟩ p p.step.step.step

/-- The point behind a field of a structure declaration and its separator, if it has one. -/
def behindEntry (p : Point) : Point :=
  if p.Faces Symbol.comma then p.step else p.skip Symbol.semicolon

/-- The fields of a structure declaration. -/
inductive Entries : List StructureEntry → Point → Point → Prop where
  | nil {p : Point} : p.Faces ReservedWord.endWord → Entries [] p p
  | cons {entry : StructureEntry} {rest : List StructureEntry} {p q r : Point} :
      Entry entry p q → Entries rest (behindEntry q) r → Entries (entry :: rest) p r

/-- A statement that is neither a label nor empty. -/
inductive ProperStatement : Statement → Point → Point → Prop where
  | breakStatement {placement : Placement} {p : Point} : p.Faces ReservedWord.breakWord →
      ProperStatement (.breakStatement placement) p p.step
  | gotoStatement {label : Identifier} {placement : Placement} {p : Point} :
      p.Faces ReservedWord.gotoWord ∨ p.FacesContextualGoto dialect → p.step.Names label →
      ProperStatement (.gotoStatement label placement) p p.step.step
  | returnStatement {arguments : List Expression} {placement : Placement} {p q : Point} :
      p.Faces ReservedWord.returnWord → Returned inner arguments p.step q →
      ProperStatement (.returnStatement arguments placement) p q
  | ifStatement {condition : Expression} {body : Block} {others last : List Clause}
      {placement placement' : Placement} {p q r s t : Point} : p.Faces ReservedWord.ifWord →
      inner.expression 0 condition p.step q → q.Faces ReservedWord.thenWord →
      Statements dialect inner body.statements q.step r → ElseifClauses dialect inner others r s →
      ElseClause dialect inner last s t → t.Faces ReservedWord.endWord →
      ProperStatement (.ifStatement (.ifClause condition body placement :: others ++ last) placement')
        p t.step
  | whileStatement {condition : Expression} {body : Block} {placement : Placement} {p q r : Point} :
      p.Faces ReservedWord.whileWord → inner.expression 0 condition p.step q →
      q.Faces ReservedWord.doWord → Statements dialect inner body.statements q.step r →
      r.Faces ReservedWord.endWord →
      ProperStatement (.whileStatement condition body placement) p r.step
  | doStatement {body : Block} {placement : Placement} {p q : Point} :
      p.Faces ReservedWord.doWord → Statements dialect inner body.statements p.step q →
      q.Faces ReservedWord.endWord → ProperStatement (.doStatement body placement) p q.step
  | repeatStatement {body : Block} {condition : Expression} {placement : Placement}
      {p q r : Point} : p.Faces ReservedWord.repeatWord →
      Statements dialect inner body.statements p.step q → q.Faces ReservedWord.untilWord →
      inner.expression 0 condition q.step r →
      ProperStatement (.repeatStatement body condition placement) p r
  | localFunction {name : Identifier} {parameters : List Parameter} {body : Block}
      {placement : Placement} {p q : Point} : p.Faces ReservedWord.localWord →
      p.step.Faces ReservedWord.functionWord → p.step.step.Names name →
      FunctionBody dialect inner (.mk (some (.identifier name)) true parameters body placement)
        p.step.step.step q →
      ProperStatement
        (.functionStatement (.mk (some (.identifier name)) true parameters body placement)) p q
  | localVariables {names : List Declarator} {values : List Expression} {placement : Placement}
      {p q r : Point} : p.Faces ReservedWord.localWord → Row (Declared dialect) names p.step q →
      InitialValues inner values q r →
      ProperStatement (.localStatement names values placement) p r
  | assignment {targets values : List Expression} {placement : Placement} {p q r : Point} :
      ¬ p.FacesContextualGoto dialect → Row (Target dialect inner) targets p q →
      q.Faces Symbol.assign → Row (inner.expression 0) values q.step r →
      ProperStatement (.assignment targets values placement) p r
  | callStatement {call : Expression} {placement : Placement} {p q : Point} :
      ¬ p.FacesContextualGoto dialect → Suffixed dialect inner false call p q →
      call.isCall = true → ¬ q.Faces Symbol.comma →
      ProperStatement (.callStatement call placement) p q
  | functionStatement {name : Expression} {parameters : List Parameter} {body : Block}
      {placement : Placement} {p q r : Point} : p.Faces ReservedWord.functionWord →
      FunctionName name p.step q →
      FunctionBody dialect inner (.mk (some name) false parameters body placement) q r →
      ProperStatement (.functionStatement (.mk (some name) false parameters body placement)) p r
  | numericFor {counter : Identifier} {start stop : Expression} {step : Option Expression}
      {body : Block} {placement : Placement} {p q r s t : Point} : p.Faces ReservedWord.forWord →
      p.step.Names counter → p.step.step.Faces Symbol.assign →
      inner.expression 0 start p.step.step.step q → q.Faces Symbol.comma →
      inner.expression 0 stop q.step r → LoopStep inner step r s → s.Faces ReservedWord.doWord →
      Statements dialect inner body.statements s.step t → t.Faces ReservedWord.endWord →
      ProperStatement (.numericFor counter start stop step body placement) p t.step
  | genericFor {names : List Identifier} {iterators : List Expression} {body : Block}
      {placement : Placement} {p q r s : Point} : p.Faces ReservedWord.forWord →
      Row Name names p.step q → q.Faces ReservedWord.inWord →
      Row (inner.expression 0) iterators q.step r → r.Faces ReservedWord.doWord →
      Statements dialect inner body.statements r.step s → s.Faces ReservedWord.endWord →
      ProperStatement (.genericFor names iterators body placement) p s.step
  | structureDeclaration {name : Identifier} {fields : List StructureEntry} {placement : Placement}
      {p q : Point} : p.Faces ReservedWord.hstructureWord → p.step.Names name →
      Entries fields p.step.step q → q.Faces ReservedWord.endWord →
      ProperStatement (.structureDeclaration name fields placement) p q.step

/-- A statement; an empty one is none. -/
inductive OptionalStatement : Option Statement → Point → Point → Prop where
  | empty {p : Point} : dialect.has .emptyStatement = true → p.Faces Symbol.semicolon →
      OptionalStatement none p p.step
  | label {label : Identifier} {placement : Placement} {p : Point} : dialect.has .labels = true →
      p.Faces Symbol.doubleColon → p.step.Names label → p.step.step.Faces Symbol.doubleColon →
      OptionalStatement (some (.labelStatement label placement)) p p.step.step.step
  | proper {statement : Statement} {p q : Point} : ProperStatement dialect inner statement p q →
      OptionalStatement (some statement) p q

/-- How what nests one level deeper is written. -/
def deeper : Writing where
  statement := OptionalStatement dialect inner
  expression := Operation dialect inner
  absent p := p.token.startsExpression = false

/-- How what nests no deeper than a number of levels is written. -/
def ofDepth : Nat → Writing
  | 0 => ⟨fun _ _ _ => False, fun _ _ _ _ => False, fun _ => False⟩
  | depth + 1 => deeper dialect (ofDepth depth)

end Writing

/-- A chunk is written, nesting no deeper than a number of levels, with the tokens between two
points. -/
def Chunk.Written (dialect : Dialect) (depth : Nat) (chunk : Chunk) (p q : Point) : Prop :=
  Writing.Statements dialect (.ofDepth dialect depth) chunk.body.statements p q ∧
    q.token.isEnd = true

end LuaSyntax
