import LuaSyntax.Operator
import LuaSyntax.Grammar.Terminal
import LuaSyntax.Tree.Basic

/-!
# Trees as words

A tree can be written out as a row of words. A word is what a token denotes and how it is spelled; where
the token stands is left open.

Of the many rows that write a tree, `Chunk.words` is one in which nothing can be taken for a part of
something else: every operand stands in parentheses, and so does everything that is called, indexed or
has a member taken and is neither a name nor ends in a suffix itself. A semicolon ends every statement,
so that one that begins with a parenthesis is no call of what stands before it. Where `goto` is no
reserved word it is written as the name that it is.

The grammar reads only so much nesting. `nesting` counts the levels that the row of a tree needs below
its own, parentheses included. An operator needs a level for its right operand but none for its left
one, and a suffix none for what it stands behind.
-/

namespace LuaSyntax

/-- What a token denotes and how it is spelled. -/
structure Word where
  value : TokenValue
  text : String
  deriving DecidableEq

/-- A token without its place. -/
def Token.word (token : Token) : Word := ⟨token.value, token.lexeme⟩

/-! ## Single words -/

/-- What denotes a literal. -/
def LiteralValue.tokenValue : LiteralValue → TokenValue
  | .string value => .string value
  | .number value => .number value
  | .boolean value => .boolean value
  | .nil => .nil
  | .vararg => .vararg

namespace Word

/-- A keyword or a symbol. -/
def terminal (terminal : Grammar.Terminal) : Word := ⟨terminal.value, terminal.spelling⟩

/-- A name. -/
def name (identifier : Identifier) : Word := ⟨.identifier identifier.name, identifier.name⟩

/-- A literal. -/
def literal (literal : Literal) : Word := ⟨literal.value.tokenValue, literal.raw⟩

instance : Coe ReservedWord Word := ⟨fun word => terminal word⟩

instance : Coe Symbol Word := ⟨fun symbol => terminal symbol⟩

end Word

/-- The keyword or the symbol that an operator before its operand is. -/
def UnaryOperator.terminal : UnaryOperator → Grammar.Terminal
  | .negate => Symbol.minus
  | .length => Symbol.hash
  | .complement => Symbol.tilde
  | .not => ReservedWord.notWord

/-- The keyword that an operator is. -/
def LogicalOperator.keyword : LogicalOperator → ReservedWord
  | .and => .andWord
  | .or => .orWord

/-- The symbol that an operator is. -/
def BinaryOperator.symbol : BinaryOperator → Symbol
  | .add => .plus
  | .subtract => .minus
  | .multiply => .star
  | .divide => .slash
  | .floorDivide => .doubleSlash
  | .modulo => .percent
  | .power => .caret
  | .concat => .doubleDot
  | .equal => .equal
  | .notEqual => .notEqual
  | .less => .less
  | .lessEqual => .lessEqual
  | .greater => .greater
  | .greaterEqual => .greaterEqual
  | .bitAnd => .ampersand
  | .bitOr => .pipe
  | .bitXor => .tilde
  | .shiftLeft => .shiftLeft
  | .shiftRight => .shiftRight

/-- The keyword or the symbol that an operator between operands is. -/
def Operator.terminal : Operator → Grammar.Terminal
  | .logical operator => operator.keyword
  | .binary operator => operator.symbol

/-- The symbol that an indexer is. -/
def Indexer.symbol : Indexer → Symbol
  | .dot => .dot
  | .colon => .colon

/-- What a `goto` begins with. -/
def Dialect.gotoWord (dialect : Dialect) : Word :=
  if dialect.has .contextualGoto then ⟨.identifier "goto", "goto"⟩ else ReservedWord.gotoWord

/-! ## Rows of words -/

/-- Words in parentheses. -/
def enclosed (words : List Word) : List Word :=
  .terminal Symbol.leftParen :: (words ++ [.terminal Symbol.rightParen])

/-- Rows with commas between them. -/
def commaSeparated : List (List Word) → List Word
  | [] => []
  | words :: rest => words ++ rest.flatMap (↑Symbol.comma :: ·)

/-- A declared name with its type, if it has one. -/
def Declarator.words : Declarator → List Word
  | .plain identifier => [.name identifier]
  | .typed declared => [.name declared.name, Symbol.colon, .name declared.type]

/-- A parameter. -/
def Parameter.words : Parameter → List Word
  | .plain identifier => (Declarator.plain identifier).words
  | .typed declared => (Declarator.typed declared).words
  | .vararg literal => [.literal literal]

/-- A field of a structure declaration. -/
def StructureEntry.words (entry : StructureEntry) : List Word :=
  [.name entry.key, Symbol.colon, .name entry.type, Symbol.semicolon]

/-- Whether an expression is a name or ends in a suffix. -/
def Expression.takesSuffix : Expression → Bool
  | .identifier _ | .member .. | .index .. | .call .. | .tableCall .. | .stringCall .. => true
  | _ => false

/-- What a suffix stands behind. -/
def behindSuffix (base : Expression) (words : List Word) : List Word :=
  if base.takesSuffix then words else enclosed words

/-! ## Trees -/

section Words

variable (dialect : Dialect)

mutual

/-- An expression. -/
def Expression.words : Expression → List Word
  | .identifier identifier => [.name identifier]
  | .literal literal => [.literal literal]
  | .function function => function.headWords ++ function.bodyWords
  | .table table => table.words
  | .binary operator left right _ =>
    enclosed left.words ++ .terminal (Operator.binary operator).terminal :: enclosed right.words
  | .logical operator left right _ =>
    enclosed left.words ++ .terminal (Operator.logical operator).terminal :: enclosed right.words
  | .unary operator argument _ => .terminal operator.terminal :: enclosed argument.words
  | .member base indexer name _ => behindSuffix base base.words ++ [↑indexer.symbol, .name name]
  | .index base index _ =>
    behindSuffix base base.words ++ ↑Symbol.leftBracket :: (index.words ++ [↑Symbol.rightBracket])
  | .call base arguments _ =>
    behindSuffix base base.words ++ enclosed (commaSeparated (expressionRows arguments))
  | .tableCall base argument _ => behindSuffix base base.words ++ argument.words
  | .stringCall base argument _ => behindSuffix base base.words ++ [.literal argument]
  | .make type fields _ =>
    ↑ReservedWord.hmakeWord :: .name type :: ↑Symbol.leftBrace ::
      (commaSeparated (makeFieldRows fields) ++ [↑Symbol.rightBrace])

/-- A table with its braces. -/
def Table.words : Table → List Word
  | .mk fields _ =>
    ↑Symbol.leftBrace :: (commaSeparated (tableFieldRows fields) ++ [↑Symbol.rightBrace])

/-- A field of a table. -/
def TableField.words : TableField → List Word
  | .keyed key value _ =>
    ↑Symbol.leftBracket :: (key.words ++ ↑Symbol.rightBracket :: ↑Symbol.assign :: value.words)
  | .named key value _ => .name key :: ↑Symbol.assign :: value.words
  | .positional value _ => value.words

/-- A field of a structure. -/
def MakeField.words : MakeField → List Word
  | .mk key value _ => .name key :: ↑Symbol.assign :: value.words

/-- A function as far as its name. -/
def Function.headWords : Function → List Word
  | .mk name isLocal _ _ _ =>
    (if isLocal then [↑ReservedWord.localWord] else []) ++ ↑ReservedWord.functionWord ::
      expressionWords? name

/-- A function behind its name. -/
def Function.bodyWords : Function → List Word
  | .mk _ _ parameters body _ =>
    enclosed (commaSeparated (parameters.map Parameter.words)) ++ (body.words ++ [↑ReservedWord.endWord])

/-- The statements of a block. -/
def Block.words : Block → List Word
  | .mk statements _ => statementsWords statements

/-- A clause of a conditional statement. -/
def Clause.words : Clause → List Word
  | .ifClause condition body _ =>
    ↑ReservedWord.ifWord :: (condition.words ++ ↑ReservedWord.thenWord :: body.words)
  | .elseifClause condition body _ =>
    ↑ReservedWord.elseifWord :: (condition.words ++ ↑ReservedWord.thenWord :: body.words)
  | .elseClause body _ => ↑ReservedWord.elseWord :: body.words

/-- A statement, without the semicolon behind it. -/
def Statement.words : Statement → List Word
  | .labelStatement label _ => [↑Symbol.doubleColon, .name label, ↑Symbol.doubleColon]
  | .breakStatement _ => [↑ReservedWord.breakWord]
  | .gotoStatement label _ => [dialect.gotoWord, .name label]
  | .returnStatement arguments _ =>
    ↑ReservedWord.returnWord :: commaSeparated (expressionRows arguments)
  | .ifStatement clauses _ => clausesWords clauses ++ [↑ReservedWord.endWord]
  | .whileStatement condition body _ =>
    ↑ReservedWord.whileWord :: (condition.words ++ ↑ReservedWord.doWord ::
      (body.words ++ [↑ReservedWord.endWord]))
  | .doStatement body _ => ↑ReservedWord.doWord :: (body.words ++ [↑ReservedWord.endWord])
  | .repeatStatement body condition _ =>
    ↑ReservedWord.repeatWord :: (body.words ++ ↑ReservedWord.untilWord :: condition.words)
  | .localStatement names values _ =>
    ↑ReservedWord.localWord :: (commaSeparated (names.map Declarator.words) ++
      if values.isEmpty then [] else ↑Symbol.assign :: commaSeparated (expressionRows values))
  | .assignment targets values _ =>
    commaSeparated (expressionRows targets) ++ ↑Symbol.assign :: commaSeparated (expressionRows values)
  | .callStatement call _ => call.words
  | .functionStatement function => function.headWords ++ function.bodyWords
  | .numericFor counter start stop step body _ =>
    ↑ReservedWord.forWord :: .name counter :: ↑Symbol.assign :: (start.words ++ ↑Symbol.comma ::
      (stop.words ++ ((if step.isSome then ↑Symbol.comma :: expressionWords? step else []) ++
        ↑ReservedWord.doWord :: (body.words ++ [↑ReservedWord.endWord]))))
  | .genericFor names iterators body _ =>
    ↑ReservedWord.forWord :: (commaSeparated (names.map ([.name ·])) ++ ↑ReservedWord.inWord ::
      (commaSeparated (expressionRows iterators) ++ ↑ReservedWord.doWord ::
        (body.words ++ [↑ReservedWord.endWord])))
  | .structureDeclaration name fields _ =>
    ↑ReservedWord.hstructureWord :: .name name ::
      (fields.flatMap StructureEntry.words ++ [↑ReservedWord.endWord])

/-- An expression, if there is one. -/
def expressionWords? : Option Expression → List Word
  | none => []
  | some expression => expression.words

/-- A row for each expression. -/
def expressionRows : List Expression → List (List Word)
  | [] => []
  | expression :: rest => expression.words :: expressionRows rest

/-- A row for each field of a table. -/
def tableFieldRows : List TableField → List (List Word)
  | [] => []
  | field :: rest => field.words :: tableFieldRows rest

/-- A row for each field of a structure. -/
def makeFieldRows : List MakeField → List (List Word)
  | [] => []
  | field :: rest => field.words :: makeFieldRows rest

/-- The clauses of a conditional statement. -/
def clausesWords : List Clause → List Word
  | [] => []
  | clause :: rest => clause.words ++ clausesWords rest

/-- Statements with a semicolon behind each. -/
def statementsWords : List Statement → List Word
  | [] => []
  | statement :: rest => statement.words ++ ↑Symbol.semicolon :: statementsWords rest

end

/-- A whole source. -/
def Chunk.words (chunk : Chunk) : List Word := chunk.body.words dialect

/-- To spell expressions is to spell each. -/
theorem expressionRows_eq (expressions : List Expression) :
    expressionRows dialect expressions = expressions.map (Expression.words dialect) := by
  induction expressions with
  | nil => rfl
  | cons expression rest ih => rw [expressionRows, ih, List.map_cons]

/-- To spell fields is to spell each. -/
theorem tableFieldRows_eq (fields : List TableField) :
    tableFieldRows dialect fields = fields.map (TableField.words dialect) := by
  induction fields with
  | nil => rfl
  | cons field rest ih => rw [tableFieldRows, ih, List.map_cons]

/-- To spell fields of `make` is to spell each. -/
theorem makeFieldRows_eq (fields : List MakeField) :
    makeFieldRows dialect fields = fields.map (MakeField.words dialect) := by
  induction fields with
  | nil => rfl
  | cons field rest ih => rw [makeFieldRows, ih, List.map_cons]

/-- Clauses are spelled one part behind the other. -/
theorem clausesWords_append (clauses more : List Clause) :
    clausesWords dialect (clauses ++ more) = clausesWords dialect clauses ++ clausesWords dialect more := by
  induction clauses with
  | nil => rfl
  | cons clause rest ih => rw [List.cons_append, clausesWords, clausesWords, ih, List.append_assoc]

end Words

/-! ## Nesting -/

/-- The levels that are needed for what a suffix stands behind. -/
def nestingBehindSuffix (base : Expression) (nesting : Nat) : Nat :=
  if base.takesSuffix then nesting else nesting + 1

mutual

/-- How many levels an expression needs below its own. -/
def Expression.nesting : Expression → Nat
  | .identifier _ => 0
  | .literal _ => 0
  | .function function => function.nesting
  | .table table => table.nesting
  | .binary _ left right _ => max (left.nesting + 1) (right.nesting + 2)
  | .logical _ left right _ => max (left.nesting + 1) (right.nesting + 2)
  | .unary _ argument _ => argument.nesting + 2
  | .member base _ _ _ => nestingBehindSuffix base base.nesting
  | .index base index _ => max (nestingBehindSuffix base base.nesting) (index.nesting + 1)
  | .call base arguments _ =>
    max (nestingBehindSuffix base base.nesting) (max 1 (expressionsNesting arguments))
  | .tableCall base argument _ => max (nestingBehindSuffix base base.nesting) argument.nesting
  | .stringCall base _ _ => nestingBehindSuffix base base.nesting
  | .make _ fields _ => makeFieldsNesting fields

/-- How many levels a table needs. One is for the field that may be missing. -/
def Table.nesting : Table → Nat
  | .mk fields _ => max 1 (tableFieldsNesting fields)

/-- How many levels a field needs. -/
def TableField.nesting : TableField → Nat
  | .keyed key value _ => max (key.nesting + 1) (value.nesting + 1)
  | .named _ value _ => value.nesting + 1
  | .positional value _ => value.nesting + 1

/-- How many levels a field needs. -/
def MakeField.nesting : MakeField → Nat
  | .mk _ value _ => value.nesting + 1

/-- How many levels a function needs. -/
def Function.nesting : Function → Nat
  | .mk _ _ _ body _ => body.nesting

/-- How many levels the statements of a block need. -/
def Block.nesting : Block → Nat
  | .mk statements _ => statementsNesting statements

/-- How many levels a clause needs. -/
def Clause.nesting : Clause → Nat
  | .ifClause condition body _ => max (condition.nesting + 1) body.nesting
  | .elseifClause condition body _ => max (condition.nesting + 1) body.nesting
  | .elseClause body _ => body.nesting

/-- How many levels a statement needs below its own. A `return` needs one for the value that may be
missing. -/
def Statement.nesting : Statement → Nat
  | .labelStatement _ _ => 0
  | .breakStatement _ => 0
  | .gotoStatement _ _ => 0
  | .returnStatement arguments _ => max 1 (expressionsNesting arguments)
  | .ifStatement clauses _ => clausesNesting clauses
  | .whileStatement condition body _ => max (condition.nesting + 1) body.nesting
  | .doStatement body _ => body.nesting
  | .repeatStatement body condition _ => max body.nesting (condition.nesting + 1)
  | .localStatement _ values _ => expressionsNesting values
  | .assignment targets values _ => max (targetsNesting targets) (expressionsNesting values)
  | .callStatement call _ => call.nesting
  | .functionStatement function => function.nesting
  | .numericFor _ start stop step body _ =>
    max (max (start.nesting + 1) (stop.nesting + 1)) (max (expressionNesting? step) body.nesting)
  | .genericFor _ iterators body _ => max (expressionsNesting iterators) body.nesting
  | .structureDeclaration _ _ _ => 0

/-- How many levels an expression needs that may be missing. -/
def expressionNesting? : Option Expression → Nat
  | none => 0
  | some expression => expression.nesting + 1

/-- How many levels some expressions need. -/
def expressionsNesting : List Expression → Nat
  | [] => 0
  | expression :: rest => max (expression.nesting + 1) (expressionsNesting rest)

/-- How many levels the targets of an assignment need. They stand where the assignment does. -/
def targetsNesting : List Expression → Nat
  | [] => 0
  | target :: rest => max target.nesting (targetsNesting rest)

/-- How many levels some fields need. -/
def tableFieldsNesting : List TableField → Nat
  | [] => 0
  | field :: rest => max field.nesting (tableFieldsNesting rest)

/-- How many levels some fields need. -/
def makeFieldsNesting : List MakeField → Nat
  | [] => 0
  | field :: rest => max field.nesting (makeFieldsNesting rest)

/-- How many levels some clauses need. -/
def clausesNesting : List Clause → Nat
  | [] => 0
  | clause :: rest => max clause.nesting (clausesNesting rest)

/-- How many levels some statements need. -/
def statementsNesting : List Statement → Nat
  | [] => 0
  | statement :: rest => max (statement.nesting + 1) (statementsNesting rest)

end

/-- How many levels a source needs. -/
def Chunk.nesting (chunk : Chunk) : Nat := chunk.body.nesting

/-- What is needed for one of some things is needed for all of them. -/
theorem le_of_mem_max {α : Type} {one : α → Nat} {all : List α → Nat}
    (hall : ∀ a rest, all (a :: rest) = max (one a) (all rest)) {a : α} {items : List α}
    (h : a ∈ items) : one a ≤ all items := by
  induction items with
  | nil => cases h
  | cons first rest ih =>
    rw [hall]
    rcases List.mem_cons.mp h with rfl | h
    · exact Nat.le_max_left _ _
    · exact Nat.le_trans (ih h) (Nat.le_max_right _ _)

/-- Clauses nest as deep as their deeper part. -/
theorem clausesNesting_append (clauses more : List Clause) :
    clausesNesting (clauses ++ more) = max (clausesNesting clauses) (clausesNesting more) := by
  induction clauses with
  | nil => exact (Nat.zero_max _).symm
  | cons clause rest ih => rw [List.cons_append, clausesNesting, clausesNesting, ih, Nat.max_assoc]

end LuaSyntax
