import Mathlib.Logic.Basic
import LuaSyntax.Proofs.Grammar.Same

/-!
# Nodes up to places

A node is the same as another if it is made of the same parts, wherever the two stand.
-/

namespace LuaSyntax

variable {base base' index index' left left' right right' value value' : Expression}
  {arguments arguments' targets targets' : List Expression} {table table' : Table}
  {statements statements' : List Statement} {name name' type type' : Identifier}
  {body body' : Block} {placement placement' : Placement}

/-! ## Rows -/

/-- Expressions that are the same are so one by one. -/
theorem Same.expressions (h : Same arguments arguments') :
    eraseExpressions .annotations arguments = eraseExpressions .annotations arguments' := by
  rw [eraseExpressions_eq, eraseExpressions_eq]
  exact h

/-- Expressions that may be missing are the same if both are missing, or neither. -/
theorem Same.expression? {expression expression' : Option Expression}
    (h : Same expression expression') :
    eraseExpression? .annotations expression = eraseExpression? .annotations expression' := by
  rw [eraseExpression?_eq, eraseExpression?_eq]
  exact h

theorem Same.tableFields {fields fields' : List TableField} (h : Same fields fields') :
    eraseTableFields .annotations fields = eraseTableFields .annotations fields' := by
  rw [eraseTableFields_eq, eraseTableFields_eq]
  exact h

theorem Same.makeFields {fields fields' : List MakeField} (h : Same fields fields') :
    eraseMakeFields .annotations fields = eraseMakeFields .annotations fields' := by
  rw [eraseMakeFields_eq, eraseMakeFields_eq]
  exact h

theorem Same.clauses {clauses clauses' : List Clause} (h : Same clauses clauses') :
    eraseClauses .annotations clauses = eraseClauses .annotations clauses' := by
  rw [eraseClauses_eq, eraseClauses_eq]
  exact h

theorem Same.blockStatements (h : Same statements statements') :
    eraseStatements .annotations statements = eraseStatements .annotations statements' := by
  rw [eraseStatements_eq, eraseStatements_eq]
  exact h

/-! ## Expressions -/

/-- Names that are the same are so as expressions. -/
theorem same_nameExpression (hname : Same name name') :
    Same (Expression.identifier name) (.identifier name') :=
  congrArg Expression.identifier hname

/-- Literals that are the same are so as expressions. -/
theorem same_literalExpression {literal literal' : Literal} (hliteral : Same literal literal') :
    Same (Expression.literal literal) (.literal literal') :=
  congrArg Expression.literal hliteral

/-- Tables that are the same are so as expressions. -/
theorem same_tableExpression (htable : Same table table') :
    Same (Expression.table table) (.table table') :=
  congrArg Expression.table htable

/-- Functions that are the same are so as expressions. -/
theorem same_functionExpression {function function' : Function}
    (hfunction : Same function function') :
    Same (Expression.function function) (.function function') :=
  congrArg Expression.function hfunction

/-- Members are the same if their bases and names are, wherever they stand. -/
theorem same_member (hbase : Same base base') (indexer : Indexer) (hname : Same name name') :
    Same (Expression.member base indexer name placement)
      (.member base' indexer name' placement') :=
  congrArg₂ (Expression.member · indexer · .none) hbase hname

/-- Indexed expressions are the same if their bases and keys are. -/
theorem same_index (hbase : Same base base') (hindex : Same index index') :
    Same (Expression.index base index placement) (.index base' index' placement') :=
  congrArg₂ (Expression.index · · .none) hbase hindex

/-- Calls are the same if what is called and the arguments are. -/
theorem same_call (hbase : Same base base') (harguments : Same arguments arguments') :
    Same (Expression.call base arguments placement) (.call base' arguments' placement') :=
  congrArg₂ (Expression.call · · .none) hbase harguments.expressions

/-- Calls with a table are the same if what is called and the table are. -/
theorem same_tableCall (hbase : Same base base') (htable : Same table table') :
    Same (Expression.tableCall base table placement) (.tableCall base' table' placement') :=
  congrArg₂ (Expression.tableCall · · .none) hbase htable

/-- Calls with a string are the same if what is called and the string are. -/
theorem same_stringCall {literal literal' : Literal} (hbase : Same base base')
    (hliteral : Same literal literal') :
    Same (Expression.stringCall base literal placement)
      (.stringCall base' literal' placement') :=
  congrArg₂ (Expression.stringCall · · .none) hbase hliteral

/-- Structures are the same if their types and fields are. -/
theorem same_make {fields fields' : List MakeField} (htype : Same type type')
    (hfields : Same fields fields') :
    Same (Expression.make type fields placement) (.make type' fields' placement') :=
  congrArg₂ (Expression.make · · .none) htype hfields.makeFields

/-- Prefixed expressions are the same if their operands are. -/
theorem same_unary (operator : UnaryOperator) (hvalue : Same value value') :
    Same (Expression.unary operator value placement) (.unary operator value' placement') :=
  congrArg (Expression.unary operator · .none) hvalue

/-- Binary expressions are the same if their operands are. -/
theorem same_binary (operator : BinaryOperator) (hleft : Same left left')
    (hright : Same right right') :
    Same (Expression.binary operator left right placement)
      (.binary operator left' right' placement') :=
  congrArg₂ (Expression.binary operator · · .none) hleft hright

/-- Logical expressions are the same if their operands are. -/
theorem same_logical (operator : LogicalOperator) (hleft : Same left left')
    (hright : Same right right') :
    Same (Expression.logical operator left right placement)
      (.logical operator left' right' placement') :=
  congrArg₂ (Expression.logical operator · · .none) hleft hright

/-! ## Fields and functions -/

/-- Tables are the same if their fields are. -/
theorem same_table {fields fields' : List TableField} (hfields : Same fields fields') :
    Same (Table.mk fields placement) (.mk fields' placement') :=
  congrArg (Table.mk · .none) hfields.tableFields

/-- Fields with a key are the same if key and value are. -/
theorem same_keyed (hindex : Same index index') (hvalue : Same value value') :
    Same (TableField.keyed index value placement) (.keyed index' value' placement') :=
  congrArg₂ (TableField.keyed · · .none) hindex hvalue

/-- Fields with a name are the same if name and value are. -/
theorem same_named (hname : Same name name') (hvalue : Same value value') :
    Same (TableField.named name value placement) (.named name' value' placement') :=
  congrArg₂ (TableField.named · · .none) hname hvalue

/-- Fields without a key are the same if their values are. -/
theorem same_positional (hvalue : Same value value') :
    Same (TableField.positional value placement) (.positional value' placement') :=
  congrArg (TableField.positional · .none) hvalue

theorem same_makeField (hname : Same name name') (hvalue : Same value value') :
    Same (MakeField.mk name value placement) (.mk name' value' placement') :=
  congrArg₂ (MakeField.mk · · .none) hname hvalue

theorem same_entry (hname : Same name name') (htype : Same type type') :
    Same (StructureEntry.mk name type placement) ⟨name', type', placement'⟩ :=
  congrArg₂ (StructureEntry.mk · · .none) hname htype

/-- Blocks are the same if their statements are. -/
theorem same_block {scope scope' : Option (List Binding)} (h : Same statements statements') :
    Same (Block.mk statements scope) (.mk statements' scope') :=
  congrArg (Block.mk · none) h.blockStatements

/-- Functions are the same if their names, parameters and bodies are. -/
theorem same_function {name name' : Option Expression} {isLocal : Bool}
    {parameters parameters' : List Parameter} (hname : Same name name')
    (hparameters : Same parameters parameters') (hbody : Same body body') :
    Same (Function.mk name isLocal parameters body placement)
      (.mk name' isLocal parameters' body' placement') := by
  have hhead := congrArg₂ (fun name parameters body =>
    Function.mk name isLocal parameters body .none) hname.expression? hparameters
  have hfunction := congr hhead hbody
  exact hfunction

/-! ## Clauses and statements -/

/-- First clauses are the same if their conditions and bodies are. -/
theorem same_ifClause (hvalue : Same value value') (hbody : Same body body') :
    Same (Clause.ifClause value body placement) (.ifClause value' body' placement') :=
  congrArg₂ (Clause.ifClause · · .none) hvalue hbody

/-- Further clauses are the same if their conditions and bodies are. -/
theorem same_elseifClause (hvalue : Same value value') (hbody : Same body body') :
    Same (Clause.elseifClause value body placement) (.elseifClause value' body' placement') :=
  congrArg₂ (Clause.elseifClause · · .none) hvalue hbody

/-- Last clauses are the same if their bodies are. -/
theorem same_elseClause (hbody : Same body body') :
    Same (Clause.elseClause body placement) (.elseClause body' placement') :=
  congrArg (Clause.elseClause · .none) hbody

/-- Functions that are the same are so as statements. -/
theorem same_functionStatement {function function' : Function}
    (hfunction : Same function function') :
    Same (Statement.functionStatement function) (.functionStatement function') :=
  congrArg Statement.functionStatement hfunction

/-- Labels are the same if their names are. -/
theorem same_label (hname : Same name name') :
    Same (Statement.labelStatement name placement) (.labelStatement name' placement') :=
  congrArg (Statement.labelStatement · .none) hname

/-- Gotos are the same if they go to the same name. -/
theorem same_goto (hname : Same name name') :
    Same (Statement.gotoStatement name placement) (.gotoStatement name' placement') :=
  congrArg (Statement.gotoStatement · .none) hname

/-- Statements that return the same are the same. -/
theorem same_return (harguments : Same arguments arguments') :
    Same (Statement.returnStatement arguments placement)
      (.returnStatement arguments' placement') :=
  congrArg (Statement.returnStatement · .none) harguments.expressions

/-- Conditional statements are the same if their clauses are. -/
theorem same_if {clauses clauses' : List Clause} (hclauses : Same clauses clauses') :
    Same (Statement.ifStatement clauses placement) (.ifStatement clauses' placement') :=
  congrArg (Statement.ifStatement · .none) hclauses.clauses

/-- Loops are the same if their conditions and bodies are. -/
theorem same_while (hvalue : Same value value') (hbody : Same body body') :
    Same (Statement.whileStatement value body placement)
      (.whileStatement value' body' placement') :=
  congrArg₂ (Statement.whileStatement · · .none) hvalue hbody

theorem same_do (hbody : Same body body') :
    Same (Statement.doStatement body placement) (.doStatement body' placement') :=
  congrArg (Statement.doStatement · .none) hbody

theorem same_repeat (hbody : Same body body') (hvalue : Same value value') :
    Same (Statement.repeatStatement body value placement)
      (.repeatStatement body' value' placement') :=
  congrArg₂ (Statement.repeatStatement · · .none) hbody hvalue

/-- Local statements are the same if names and values are. -/
theorem same_local {names names' : List Declarator} (hnames : Same names names')
    (harguments : Same arguments arguments') :
    Same (Statement.localStatement names arguments placement)
      (.localStatement names' arguments' placement') :=
  congrArg₂ (Statement.localStatement · · .none) hnames harguments.expressions

/-- Assignments are the same if targets and values are. -/
theorem same_assignment (htargets : Same targets targets')
    (harguments : Same arguments arguments') :
    Same (Statement.assignment targets arguments placement)
      (.assignment targets' arguments' placement') :=
  congrArg₂ (Statement.assignment · · .none) htargets.expressions harguments.expressions

theorem same_callStatement (hvalue : Same value value') :
    Same (Statement.callStatement value placement) (.callStatement value' placement') :=
  congrArg (Statement.callStatement · .none) hvalue

/-- Loops over numbers are the same if counter, bounds, step and body are. -/
theorem same_numericFor {step step' : Option Expression} (hname : Same name name')
    (hleft : Same left left') (hright : Same right right') (hstep : Same step step')
    (hbody : Same body body') :
    Same (Statement.numericFor name left right step body placement)
      (.numericFor name' left' right' step' body' placement') := by
  have hcounter := congrArg₂ (fun name left right step body =>
    Statement.numericFor name left right step body .none) hname hleft
  have hstatement := congr (congr (congr hcounter hright) hstep.expression?) hbody
  exact hstatement

/-- Loops over iterators are the same if names, iterators and bodies are. -/
theorem same_genericFor {names names' : List Identifier} (hnames : Same names names')
    (harguments : Same arguments arguments') (hbody : Same body body') :
    Same (Statement.genericFor names arguments body placement)
      (.genericFor names' arguments' body' placement') := by
  have hheader := congrArg₂ (fun names arguments body =>
    Statement.genericFor names arguments body .none) hnames harguments.expressions
  have hstatement := congr hheader hbody
  exact hstatement

theorem same_structure {fields fields' : List StructureEntry} (hname : Same name name')
    (hfields : Same fields fields') :
    Same (Statement.structureDeclaration name fields placement)
      (.structureDeclaration name' fields' placement') :=
  congrArg₂ (Statement.structureDeclaration · · .none) hname hfields

/-- Chunks are the same if their bodies are. -/
theorem same_chunk {comments comments' : Option (List Comment)}
    {globals globals' : Option (List Identifier)} (hbody : Same body body') :
    Same (Chunk.mk body comments globals placement) ⟨body', comments', globals', placement'⟩ :=
  congrArg (Chunk.mk · none none .none) hbody

end LuaSyntax
