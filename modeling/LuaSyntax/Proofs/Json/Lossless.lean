import Mathlib.Data.List.Nodup
import LuaSyntax.Proofs.Json.Alike
import LuaSyntax.Proofs.Tree.Demands
import LuaSyntax.Tree.Json

/-!
# What is written of a tree tells the tree

Two trees that are written as the same JSON are the same, but for numbers that are not finite, all of which are written as
null. The proof goes along the trees: the member `type` tells which constructor a node has, for the nodes that may stand
at one position differ in it, and the other members tell the parts.
-/

namespace LuaSyntax

open JsonValue

/-- Asks that every number is finite. -/
def Demands.finite : Demands where
  feature _ := True
  identifier _ := True
  literal leaf := ∀ value, leaf.value = .number value → value.isFinite
  comment _ := True
  placement _ := True

/-! ## Names -/

/-- All kinds of nodes. -/
def NodeKind.all : List NodeKind :=
  [.chunk, .comment, .labelStatement, .breakStatement, .gotoStatement, .returnStatement, .ifStatement, .ifClause,
    .elseifClause, .elseClause, .whileStatement, .doStatement, .repeatStatement, .localStatement, .assignmentStatement,
    .callStatement, .functionDeclaration, .forNumericStatement, .forGenericStatement, .identifier, .stringLiteral,
    .numericLiteral, .booleanLiteral, .nilLiteral, .varargLiteral, .tableKey, .tableKeyString, .tableValue,
    .tableConstructorExpression, .binaryExpression, .logicalExpression, .unaryExpression, .memberExpression,
    .indexExpression, .callExpression, .tableCallExpression, .stringCallExpression, .typedIdentifier,
    .hstructureDeclarationExpression, .hstructureEntry, .hmakeConstructorExpression, .hmakeValue]

/-- Every kind of node is listed. -/
theorem NodeKind.mem_all (kind : NodeKind) : kind ∈ NodeKind.all := by cases kind <;> decide

/-- Kinds of nodes are told apart by their names. -/
theorem NodeKind.name_injective : Function.Injective NodeKind.name := fun a b =>
  List.inj_on_of_nodup_map (show (NodeKind.all.map NodeKind.name).Nodup by decide +kernel) a.mem_all b.mem_all

/-- Binary operators are told apart by their spelling. -/
theorem BinaryOperator.spelling_injective : Function.Injective BinaryOperator.spelling := by
  intro a b h
  cases a <;> cases b <;> first | rfl | exact absurd h (by decide)

/-- Logical operators are told apart by their spelling. -/
theorem LogicalOperator.spelling_injective : Function.Injective LogicalOperator.spelling := by
  intro a b h
  cases a <;> cases b <;> first | rfl | exact absurd h (by decide)

/-- Prefix operators are told apart by their spelling. -/
theorem UnaryOperator.spelling_injective : Function.Injective UnaryOperator.spelling := by
  intro a b h
  cases a <;> cases b <;> first | rfl | exact absurd h (by decide)

/-- Indexers are told apart by their spelling. -/
theorem Indexer.spelling_injective : Function.Injective Indexer.spelling := by
  intro a b h
  cases a <;> cases b <;> first | rfl | exact absurd h (by decide)

/-! ## Leaves -/

section

/-- Nodes that are alike are of one kind and have parts that are alike. -/
@[simp] theorem JsonValue.alike_node {kind kind' : NodeKind} {parts parts' : List (String × JsonValue)}
    (hfresh : Fresh "type" parts) :
    Alike (.node kind parts) (.node kind' parts') ↔ kind = kind' ∧ Alike (.object parts) (.object parts') := by
  rw [node, node, alike_cons hfresh, alike_text, NodeKind.name_injective.eq_iff]

/-- Only two names are used for where a node stands. -/
@[simp] theorem Placement.fresh_members {name : String} (hloc : name ≠ "loc") (hrange : name ≠ "range")
    (placement : Placement) : Fresh name placement.members :=
  fresh_append.mpr ⟨fresh_member? hloc, fresh_member? hrange⟩

/-- A position can be read off its JSON. -/
theorem Position.eq_of_alike {a b : Position} (h : Alike a.toJson b.toJson) : a = b := by
  obtain ⟨line, column⟩ := a
  obtain ⟨line', column'⟩ := b
  simpa [Position.toJson] using h

/-- A location can be read off its JSON. -/
theorem Location.eq_of_alike {a b : Location} (h : Alike a.toJson b.toJson) : a = b := by
  obtain ⟨start, stop⟩ := a
  obtain ⟨start', stop'⟩ := b
  obtain ⟨hstart, hstop⟩ : Alike start.toJson start'.toJson ∧ Alike stop.toJson stop'.toJson := by
    simpa [Location.toJson] using h
  rw [Position.eq_of_alike hstart, Position.eq_of_alike hstop]

/-- A span can be read off its JSON. -/
theorem Span.eq_of_alike {a b : Span} (h : Alike a.toJson b.toJson) : a = b := by
  obtain ⟨start, stop⟩ := a
  obtain ⟨start', stop'⟩ := b
  simpa [Span.toJson] using h

/-- Where a node stands can be read off its members. -/
@[simp] theorem Placement.alike_iff {a b : Placement} : Alike (.object a.members) (.object b.members) ↔ a = b := by
  refine ⟨fun h => ?_, fun h => h ▸ .refl _⟩
  obtain ⟨location, range⟩ := a
  obtain ⟨location', range'⟩ := b
  obtain ⟨hlocation, hrange⟩ := (alike_member? (fresh_member? (by decide)) (fresh_member? (by decide))).mp h
  obtain rfl := eq_of_optionRel (fun _ _ _ _ => Location.eq_of_alike) hlocation
  obtain rfl := eq_of_optionRel (fun _ _ _ _ => Span.eq_of_alike) (alike_lone_member?.mp hrange)
  rfl

/-- That a name is local is a member that may be absent. -/
theorem Identifier.toJson_eq (identifier : Identifier) : identifier.toJson = .node .identifier (("name", .text identifier.name) ::
    (member? "isLocal" (if identifier.isLocal then some (.bool true) else none) ++ identifier.placement.members)) := by
  obtain ⟨name, isLocal, placement⟩ := identifier
  cases isLocal <;> rfl

/-- A name can be read off its JSON. -/
theorem Identifier.eq_of_alike {a b : Identifier} (h : Alike a.toJson b.toJson) : a = b := by
  obtain ⟨name, isLocal, placement⟩ := a
  obtain ⟨name', isLocal', placement'⟩ := b
  obtain ⟨rfl, hlocal, rfl⟩ : name = name' ∧ Option.Rel Alike (if isLocal then some (.bool true) else none)
      (if isLocal' then some (.bool true) else none) ∧ placement = placement' := by
    simpa [Identifier.toJson_eq] using h
  cases isLocal <;> cases isLocal' <;> first | rfl | cases hlocal

/-- Names are equal if their JSON is alike. -/
@[simp] theorem Identifier.alike_iff {a b : Identifier} : Alike a.toJson b.toJson ↔ a = b :=
  ⟨Identifier.eq_of_alike, fun h => h ▸ .refl _⟩

/-- The value of a literal of a known kind can be read off its JSON, if it is finite. -/
theorem LiteralValue.eq_of_alike {a b : LiteralValue} (ha : ∀ value, a = .number value → value.isFinite)
    (hb : ∀ value, b = .number value → value.isFinite) (hkind : a.kind = b.kind) (h : Alike a.toJson b.toJson) : a = b := by
  cases a <;> cases b <;> simp_all [LiteralValue.kind, LiteralValue.toJson, ofFloat]

/-- A literal can be read off its JSON, if it is finite. -/
theorem Literal.eq_of_alike {a b : Literal} (ha : Demands.finite.literal a) (hb : Demands.finite.literal b)
    (h : Alike a.toJson b.toJson) : a = b := by
  obtain ⟨value, raw, placement⟩ := a
  obtain ⟨value', raw', placement'⟩ := b
  obtain ⟨hkind, hvalue, rfl, rfl⟩ : value.kind = value'.kind ∧ Alike value.toJson value'.toJson ∧ raw = raw' ∧
      placement = placement' := by
    simpa [Literal.toJson, Literal.kind] using h
  exact congrArg (Literal.mk · raw placement) (LiteralValue.eq_of_alike ha hb hkind hvalue)

/-- A comment can be read off its JSON. -/
theorem Comment.eq_of_alike {a b : Comment} (h : Alike a.toJson b.toJson) : a = b := by
  obtain ⟨value, raw, placement⟩ := a
  obtain ⟨value', raw', placement'⟩ := b
  simpa [Comment.toJson] using h

/-- A binding can be read off its JSON. -/
theorem Binding.eq_of_alike {a b : Binding} (h : Alike a.toJson b.toJson) : a = b := by
  obtain ⟨name, identifier⟩ := a
  obtain ⟨name', identifier'⟩ := b
  obtain ⟨rfl, hnode⟩ : name = name' ∧
      Alike ((identifier.map Identifier.toJson).getD .null) ((identifier'.map Identifier.toJson).getD .null) := by
    simpa [Binding.toJson] using h
  cases identifier <;> cases identifier'
  · rfl
  · cases hnode
  · cases hnode
  · rw [Identifier.eq_of_alike hnode]

/-- A name with a type can be read off its JSON. -/
theorem TypedIdentifier.eq_of_alike {a b : TypedIdentifier} (h : Alike a.toJson b.toJson) : a = b := by
  obtain ⟨name, type, placement⟩ := a
  obtain ⟨name', type', placement'⟩ := b
  simpa [TypedIdentifier.toJson] using h

/-- An entry of a structure can be read off its JSON. -/
theorem StructureEntry.eq_of_alike {a b : StructureEntry} (h : Alike a.toJson b.toJson) : a = b := by
  obtain ⟨key, type, placement⟩ := a
  obtain ⟨key', type', placement'⟩ := b
  simpa [StructureEntry.toJson] using h

/-! ## Kinds -/

/-- Whether a value is written of a node of a kind. -/
def JsonValue.IsNode (kind : NodeKind) (value : JsonValue) : Prop := ∃ parts, value = .node kind parts ∧ Fresh "type" parts

/-- Nodes that are written alike are of one kind. -/
theorem JsonValue.IsNode.kind_eq {kind kind' : NodeKind} {a b : JsonValue} (ha : a.IsNode kind) (hb : b.IsNode kind')
    (h : Alike a b) : kind = kind' := by
  obtain ⟨parts, rfl, hfresh⟩ := ha
  obtain ⟨parts', rfl, -⟩ := hb
  exact ((alike_node hfresh).mp h).1

/-- No node is written as what is missing. -/
theorem JsonValue.IsNode.not_alike_null {kind : NodeKind} {a : JsonValue} (ha : a.IsNode kind) :
    ¬ Alike .null a ∧ ¬ Alike a .null := by
  obtain ⟨parts, rfl, -⟩ := ha
  exact ⟨nofun, nofun⟩

/-- A name is written as a node. -/
theorem Identifier.isNode (identifier : Identifier) : identifier.toJson.IsNode .identifier :=
  ⟨_, identifier.toJson_eq, by simp⟩

/-- A literal is written as a node of its kind. -/
theorem Literal.isNode (literal : Literal) : literal.toJson.IsNode literal.kind := ⟨_, rfl, by simp⟩

/-- A name with a type is written as a node. -/
theorem TypedIdentifier.isNode (typed : TypedIdentifier) : typed.toJson.IsNode .typedIdentifier := ⟨_, rfl, by simp⟩

/-- Only two names are used for what a block is made of. -/
theorem Block.fresh_members {name : String} (hbody : name ≠ "body") (hscope : name ≠ "scope") (block : Block) :
    Fresh name block.members := by
  cases block
  exact fresh_cons.mpr ⟨hbody, fresh_member? hscope⟩

/-- A function is written as a node. -/
theorem Function.isNode (function : Function) : function.toJson.IsNode .functionDeclaration := by
  cases function
  exact ⟨_, rfl, by simp [Block.fresh_members]⟩

/-- A table is written as a node. -/
theorem Table.isNode (table : Table) : table.toJson.IsNode .tableConstructorExpression := by
  cases table
  exact ⟨_, rfl, by simp⟩

/-- An expression is written as a node of its kind. -/
theorem Expression.isNode (expression : Expression) : expression.toJson.IsNode expression.kind := by
  cases expression with
  | identifier name => exact name.isNode
  | literal leaf => exact leaf.isNode
  | function inner => exact inner.isNode
  | table inner => exact inner.isNode
  | _ => exact ⟨_, rfl, by simp⟩

/-- A field is written as a node of its kind. -/
theorem TableField.isNode (field : TableField) : field.toJson.IsNode field.kind := by
  cases field <;> exact ⟨_, rfl, by simp⟩

/-- A clause is written as a node of its kind. -/
theorem Clause.isNode (clause : Clause) : clause.toJson.IsNode clause.kind := by
  cases clause <;> exact ⟨_, rfl, by simp [Block.fresh_members]⟩

/-- A statement is written as a node of its kind. -/
theorem Statement.isNode (statement : Statement) : statement.toJson.IsNode statement.kind := by
  cases statement with
  | functionStatement inner => exact inner.isNode
  | _ => exact ⟨_, rfl, by simp [Block.fresh_members]⟩

/-- A declared name can be read off its JSON. -/
theorem Declarator.eq_of_alike {a b : Declarator} (h : Alike a.toJson b.toJson) : a = b := by
  cases a <;> cases b
  · next name name' => rw [Identifier.eq_of_alike h]
  · next name typed => exact nomatch name.isNode.kind_eq typed.isNode h
  · next typed name => exact nomatch typed.isNode.kind_eq name.isNode h
  · next typed typed' => rw [TypedIdentifier.eq_of_alike h]

/-- A literal is not of a kind of which no literal is. -/
theorem Literal.kind_ne (literal : Literal) {kind : NodeKind} (hkind : kind.isLiteral = false) : literal.kind ≠ kind := by
  rintro rfl
  obtain ⟨value, raw, placement⟩ := literal
  cases value <;> cases hkind

/-- A parameter can be read off its JSON. -/
theorem Parameter.eq_of_alike {a b : Parameter} (ha : a.Meets .finite) (hb : b.Meets .finite)
    (h : Alike a.toJson b.toJson) : a = b := by
  cases a <;> cases b
  · next name name' => rw [Identifier.eq_of_alike h]
  · next name typed => exact nomatch name.isNode.kind_eq typed.isNode h
  · next name dots => exact absurd (name.isNode.kind_eq dots.isNode h).symm (dots.kind_ne rfl)
  · next typed name => exact nomatch typed.isNode.kind_eq name.isNode h
  · next typed typed' => rw [TypedIdentifier.eq_of_alike h]
  · next typed dots => exact absurd (typed.isNode.kind_eq dots.isNode h).symm (dots.kind_ne rfl)
  · next dots name => exact absurd (dots.isNode.kind_eq name.isNode h) (dots.kind_ne rfl)
  · next dots typed => exact absurd (dots.isNode.kind_eq typed.isNode h) (dots.kind_ne rfl)
  · next dots dots' => rw [Literal.eq_of_alike ha hb h]

/-- The kind of an expression, without what the values of literals tell. -/
def Expression.form : Expression → Option NodeKind
  | .literal _ => none
  | expression => some expression.kind

/-- Expressions that are written alike are of one form. -/
theorem Expression.form_eq {a b : Expression} (h : Alike a.toJson b.toJson) : a.form = b.form := by
  have hform (expression : Expression) :
      expression.form = if expression.kind.isLiteral then none else some expression.kind := by
    cases expression with
    | literal leaf =>
      obtain ⟨value, raw, placement⟩ := leaf
      cases value <;> rfl
    | _ => rfl
  rw [hform, hform, a.isNode.kind_eq b.isNode h]

/-- Fields that are written alike are of one kind. -/
theorem TableField.kind_eq {a b : TableField} (h : Alike a.toJson b.toJson) : a.kind = b.kind :=
  a.isNode.kind_eq b.isNode h

/-- Clauses that are written alike are of one kind. -/
theorem Clause.kind_eq {a b : Clause} (h : Alike a.toJson b.toJson) : a.kind = b.kind := a.isNode.kind_eq b.isNode h

/-- Statements that are written alike are of one kind. -/
theorem Statement.kind_eq {a b : Statement} (h : Alike a.toJson b.toJson) : a.kind = b.kind :=
  a.isNode.kind_eq b.isNode h

/-- The members of a block can be told from what stands behind them. -/
@[simp] theorem Block.alike_append {a b : Block} {placement placement' : Placement} :
    Alike (.object (a.members ++ placement.members)) (.object (b.members ++ placement'.members)) ↔
      Alike (.object a.members) (.object b.members) ∧ placement = placement' := by
  cases a
  cases b
  simp [Block.members, scopeMembers, and_assoc]

/-- The names that a block keeps can be read off its JSON. -/
theorem scope_eq_of_alike {scope scope' : Option (List Binding)}
    (h : Option.Rel Alike (scope.map fun bindings => .list (bindings.map Binding.toJson))
      (scope'.map fun bindings => .list (bindings.map Binding.toJson))) : scope = scope' :=
  eq_of_optionRel (fun _ _ _ _ h => eq_of_itemsAlike (fun _ _ _ _ => Binding.eq_of_alike) (alike_list.mp h)) h

/-! ## One constructor at a time

What is written as the same JSON as a node has its constructor, and parts that are written as the same. -/

attribute [local simp] Expression.toJson TableField.toJson Clause.toJson Statement.toJson Block.fresh_members

/-- What is written like a name is that name. -/
theorem Expression.of_alike_identifier {name} {b : Expression}
    (h : Alike (Expression.identifier name).toJson b.toJson) : b = .identifier name := by
  cases b with
  | identifier name' => rw [Identifier.eq_of_alike h]
  | _ => exact nomatch Expression.form_eq h

/-- What is written like a literal is one. -/
theorem Expression.of_alike_literal {leaf} {b : Expression} (h : Alike (Expression.literal leaf).toJson b.toJson) :
    ∃ leaf', b = .literal leaf' ∧ Alike leaf.toJson leaf'.toJson := by
  cases b with
  | literal leaf' => exact ⟨leaf', rfl, h⟩
  | _ => exact nomatch Expression.form_eq h

/-- What is written like a function is one. -/
theorem Expression.of_alike_function {inner} {b : Expression} (h : Alike (Expression.function inner).toJson b.toJson) :
    ∃ inner', b = .function inner' ∧ Alike inner.toJson inner'.toJson := by
  cases b with
  | function inner' => exact ⟨inner', rfl, h⟩
  | _ => exact nomatch Expression.form_eq h

/-- What is written like a table is one. -/
theorem Expression.of_alike_table {inner} {b : Expression} (h : Alike (Expression.table inner).toJson b.toJson) :
    ∃ inner', b = .table inner' ∧ Alike inner.toJson inner'.toJson := by
  cases b with
  | table inner' => exact ⟨inner', rfl, h⟩
  | _ => exact nomatch Expression.form_eq h

/-- What is written like two operands of a binary operator is so, and its operands are written like them. -/
theorem Expression.of_alike_binary {operator left right placement} {b : Expression}
    (h : Alike (Expression.binary operator left right placement).toJson b.toJson) :
    ∃ left' right', b = .binary operator left' right' placement ∧ Alike left.toJson left'.toJson ∧
      Alike right.toJson right'.toJson := by
  cases b with
  | binary operator' left' right' placement' =>
    obtain ⟨hoperator, hleft, hright, rfl⟩ : operator.spelling = operator'.spelling ∧ Alike left.toJson left'.toJson ∧
        Alike right.toJson right'.toJson ∧ placement = placement' := by
      simpa using h
    obtain rfl := BinaryOperator.spelling_injective hoperator
    exact ⟨left', right', rfl, hleft, hright⟩
  | _ => exact nomatch Expression.form_eq h

/-- What is written like two operands of a logical operator is so, and its operands are written like them. -/
theorem Expression.of_alike_logical {operator left right placement} {b : Expression}
    (h : Alike (Expression.logical operator left right placement).toJson b.toJson) :
    ∃ left' right', b = .logical operator left' right' placement ∧ Alike left.toJson left'.toJson ∧
      Alike right.toJson right'.toJson := by
  cases b with
  | logical operator' left' right' placement' =>
    obtain ⟨hoperator, hleft, hright, rfl⟩ : operator.spelling = operator'.spelling ∧ Alike left.toJson left'.toJson ∧
        Alike right.toJson right'.toJson ∧ placement = placement' := by
      simpa using h
    obtain rfl := LogicalOperator.spelling_injective hoperator
    exact ⟨left', right', rfl, hleft, hright⟩
  | _ => exact nomatch Expression.form_eq h

/-- What is written like a prefixed expression is one, and its operand is written like the other. -/
theorem Expression.of_alike_unary {operator argument placement} {b : Expression}
    (h : Alike (Expression.unary operator argument placement).toJson b.toJson) :
    ∃ argument', b = .unary operator argument' placement ∧ Alike argument.toJson argument'.toJson := by
  cases b with
  | unary operator' argument' placement' =>
    obtain ⟨hoperator, hargument, rfl⟩ : operator.spelling = operator'.spelling ∧
        Alike argument.toJson argument'.toJson ∧ placement = placement' := by
      simpa using h
    obtain rfl := UnaryOperator.spelling_injective hoperator
    exact ⟨argument', rfl, hargument⟩
  | _ => exact nomatch Expression.form_eq h

/-- What is written like a member is one of the same name, and its base is written like the other. -/
theorem Expression.of_alike_member {base indexer name placement} {b : Expression}
    (h : Alike (Expression.member base indexer name placement).toJson b.toJson) :
    ∃ base', b = .member base' indexer name placement ∧ Alike base.toJson base'.toJson := by
  cases b with
  | member base' indexer' name' placement' =>
    obtain ⟨hindexer, rfl, hbase, rfl⟩ : indexer.spelling = indexer'.spelling ∧ name = name' ∧
        Alike base.toJson base'.toJson ∧ placement = placement' := by
      simpa using h
    obtain rfl := Indexer.spelling_injective hindexer
    exact ⟨base', rfl, hbase⟩
  | _ => exact nomatch Expression.form_eq h

/-- What is written like an indexed expression is one, and its base and key are written like the others. -/
theorem Expression.of_alike_index {base index placement} {b : Expression}
    (h : Alike (Expression.index base index placement).toJson b.toJson) :
    ∃ base' index', b = .index base' index' placement ∧ Alike base.toJson base'.toJson ∧
      Alike index.toJson index'.toJson := by
  cases b with
  | index base' index' placement' =>
    obtain ⟨hbase, hindex, rfl⟩ : Alike base.toJson base'.toJson ∧ Alike index.toJson index'.toJson ∧
        placement = placement' := by
      simpa using h
    exact ⟨base', index', rfl, hbase, hindex⟩
  | _ => exact nomatch Expression.form_eq h

/-- What is written like a call is one, and so are its parts. -/
theorem Expression.of_alike_call {base arguments placement} {b : Expression}
    (h : Alike (Expression.call base arguments placement).toJson b.toJson) :
    ∃ base' arguments', b = .call base' arguments' placement ∧ Alike base.toJson base'.toJson ∧
      ItemsAlike (expressionsToJson arguments) (expressionsToJson arguments') := by
  cases b with
  | call base' arguments' placement' =>
    obtain ⟨hbase, harguments, rfl⟩ : Alike base.toJson base'.toJson ∧
        ItemsAlike (expressionsToJson arguments) (expressionsToJson arguments') ∧ placement = placement' := by
      simpa using h
    exact ⟨base', arguments', rfl, hbase, harguments⟩
  | _ => exact nomatch Expression.form_eq h

/-- What is written like a call with a table is one, and so are its parts. -/
theorem Expression.of_alike_tableCall {base argument placement} {b : Expression}
    (h : Alike (Expression.tableCall base argument placement).toJson b.toJson) :
    ∃ base' argument', b = .tableCall base' argument' placement ∧ Alike base.toJson base'.toJson ∧
      Alike argument.toJson argument'.toJson := by
  cases b with
  | tableCall base' argument' placement' =>
    obtain ⟨hbase, hargument, rfl⟩ : Alike base.toJson base'.toJson ∧ Alike argument.toJson argument'.toJson ∧
        placement = placement' := by
      simpa using h
    exact ⟨base', argument', rfl, hbase, hargument⟩
  | _ => exact nomatch Expression.form_eq h

/-- What is written like a call with a string is one, and so are its parts. -/
theorem Expression.of_alike_stringCall {base argument placement} {b : Expression}
    (h : Alike (Expression.stringCall base argument placement).toJson b.toJson) :
    ∃ base' argument', b = .stringCall base' argument' placement ∧ Alike base.toJson base'.toJson ∧
      Alike argument.toJson argument'.toJson := by
  cases b with
  | stringCall base' argument' placement' =>
    obtain ⟨hbase, hargument, rfl⟩ : Alike base.toJson base'.toJson ∧ Alike argument.toJson argument'.toJson ∧
        placement = placement' := by
      simpa using h
    exact ⟨base', argument', rfl, hbase, hargument⟩
  | _ => exact nomatch Expression.form_eq h

/-- What is written like a structure is one of the same type, and so are its fields. -/
theorem Expression.of_alike_make {type fields placement} {b : Expression}
    (h : Alike (Expression.make type fields placement).toJson b.toJson) :
    ∃ fields', b = .make type fields' placement ∧ ItemsAlike (makeFieldsToJson fields) (makeFieldsToJson fields') := by
  cases b with
  | make type' fields' placement' =>
    obtain ⟨rfl, hfields, rfl⟩ : type = type' ∧ ItemsAlike (makeFieldsToJson fields) (makeFieldsToJson fields') ∧
        placement = placement' := by
      simpa using h
    exact ⟨fields', rfl, hfields⟩
  | _ => exact nomatch Expression.form_eq h

/-- What is written like a field with a key is one, and so are its parts. -/
theorem TableField.of_alike_keyed {key value placement} {b : TableField}
    (h : Alike (TableField.keyed key value placement).toJson b.toJson) :
    ∃ key' value', b = .keyed key' value' placement ∧ Alike key.toJson key'.toJson ∧ Alike value.toJson value'.toJson := by
  cases b with
  | keyed key' value' placement' =>
    obtain ⟨hkey, hvalue, rfl⟩ : Alike key.toJson key'.toJson ∧ Alike value.toJson value'.toJson ∧ placement = placement' := by
      simpa using h
    exact ⟨key', value', rfl, hkey, hvalue⟩
  | _ => exact nomatch TableField.kind_eq h

/-- What is written like a field with a name is one of the same name. -/
theorem TableField.of_alike_named {key value placement} {b : TableField}
    (h : Alike (TableField.named key value placement).toJson b.toJson) :
    ∃ value', b = .named key value' placement ∧ Alike value.toJson value'.toJson := by
  cases b with
  | named key' value' placement' =>
    obtain ⟨rfl, hvalue, rfl⟩ : key = key' ∧ Alike value.toJson value'.toJson ∧ placement = placement' := by
      simpa using h
    exact ⟨value', rfl, hvalue⟩
  | _ => exact nomatch TableField.kind_eq h

/-- What is written like a field without a key is one. -/
theorem TableField.of_alike_positional {value placement} {b : TableField}
    (h : Alike (TableField.positional value placement).toJson b.toJson) :
    ∃ value', b = .positional value' placement ∧ Alike value.toJson value'.toJson := by
  cases b with
  | positional value' placement' =>
    obtain ⟨hvalue, rfl⟩ : Alike value.toJson value'.toJson ∧ placement = placement' := by
      simpa using h
    exact ⟨value', rfl, hvalue⟩
  | _ => exact nomatch TableField.kind_eq h

/-- What is written like a first clause is one, and so are its parts. -/
theorem Clause.of_alike_ifClause {condition body placement} {b : Clause}
    (h : Alike (Clause.ifClause condition body placement).toJson b.toJson) :
    ∃ condition' body', b = .ifClause condition' body' placement ∧ Alike condition.toJson condition'.toJson ∧
      Alike (.object body.members) (.object body'.members) := by
  cases b with
  | ifClause condition' body' placement' =>
    obtain ⟨hcondition, hbody, rfl⟩ : Alike condition.toJson condition'.toJson ∧
        Alike (.object body.members) (.object body'.members) ∧ placement = placement' := by
      simpa using h
    exact ⟨condition', body', rfl, hcondition, hbody⟩
  | _ => exact nomatch Clause.kind_eq h

/-- What is written like a further clause is one, and so are its parts. -/
theorem Clause.of_alike_elseifClause {condition body placement} {b : Clause}
    (h : Alike (Clause.elseifClause condition body placement).toJson b.toJson) :
    ∃ condition' body', b = .elseifClause condition' body' placement ∧ Alike condition.toJson condition'.toJson ∧
      Alike (.object body.members) (.object body'.members) := by
  cases b with
  | elseifClause condition' body' placement' =>
    obtain ⟨hcondition, hbody, rfl⟩ : Alike condition.toJson condition'.toJson ∧
        Alike (.object body.members) (.object body'.members) ∧ placement = placement' := by
      simpa using h
    exact ⟨condition', body', rfl, hcondition, hbody⟩
  | _ => exact nomatch Clause.kind_eq h

/-- What is written like a last clause is one, and so is its body. -/
theorem Clause.of_alike_elseClause {body placement} {b : Clause}
    (h : Alike (Clause.elseClause body placement).toJson b.toJson) :
    ∃ body', b = .elseClause body' placement ∧ Alike (.object body.members) (.object body'.members) := by
  cases b with
  | elseClause body' placement' =>
    obtain ⟨hbody, rfl⟩ : Alike (.object body.members) (.object body'.members) ∧ placement = placement' := by
      simpa using h
    exact ⟨body', rfl, hbody⟩
  | _ => exact nomatch Clause.kind_eq h

/-- What is written like a label is that label. -/
theorem Statement.of_alike_labelStatement {label placement} {b : Statement}
    (h : Alike (Statement.labelStatement label placement).toJson b.toJson) :
    b = .labelStatement label placement := by
  cases b with
  | labelStatement label' placement' =>
    obtain ⟨rfl, rfl⟩ : label = label' ∧ placement = placement' := by
      simpa using h
    exact rfl
  | _ => exact nomatch Statement.kind_eq h

/-- What is written like a `break` is that `break`. -/
theorem Statement.of_alike_breakStatement {placement} {b : Statement}
    (h : Alike (Statement.breakStatement placement).toJson b.toJson) :
    b = .breakStatement placement := by
  cases b with
  | breakStatement placement' =>
    obtain rfl : placement = placement' := by
      simpa using h
    exact rfl
  | _ => exact nomatch Statement.kind_eq h

/-- What is written like a `goto` is that `goto`. -/
theorem Statement.of_alike_gotoStatement {label placement} {b : Statement}
    (h : Alike (Statement.gotoStatement label placement).toJson b.toJson) :
    b = .gotoStatement label placement := by
  cases b with
  | gotoStatement label' placement' =>
    obtain ⟨rfl, rfl⟩ : label = label' ∧ placement = placement' := by
      simpa using h
    exact rfl
  | _ => exact nomatch Statement.kind_eq h

/-- What is written like a `return` is one, and it returns what is written alike. -/
theorem Statement.of_alike_returnStatement {arguments placement} {b : Statement}
    (h : Alike (Statement.returnStatement arguments placement).toJson b.toJson) :
    ∃ arguments', b = .returnStatement arguments' placement ∧
      ItemsAlike (expressionsToJson arguments) (expressionsToJson arguments') := by
  cases b with
  | returnStatement arguments' placement' =>
    obtain ⟨harguments, rfl⟩ : ItemsAlike (expressionsToJson arguments) (expressionsToJson arguments') ∧
        placement = placement' := by
      simpa using h
    exact ⟨arguments', rfl, harguments⟩
  | _ => exact nomatch Statement.kind_eq h

/-- What is written like a conditional statement is one, and so are its clauses. -/
theorem Statement.of_alike_ifStatement {clauses placement} {b : Statement}
    (h : Alike (Statement.ifStatement clauses placement).toJson b.toJson) :
    ∃ clauses', b = .ifStatement clauses' placement ∧ ItemsAlike (clausesToJson clauses) (clausesToJson clauses') := by
  cases b with
  | ifStatement clauses' placement' =>
    obtain ⟨hclauses, rfl⟩ : ItemsAlike (clausesToJson clauses) (clausesToJson clauses') ∧ placement = placement' := by
      simpa using h
    exact ⟨clauses', rfl, hclauses⟩
  | _ => exact nomatch Statement.kind_eq h

/-- What is written like a loop with its condition in front is one, and so are its parts. -/
theorem Statement.of_alike_whileStatement {condition body placement} {b : Statement}
    (h : Alike (Statement.whileStatement condition body placement).toJson b.toJson) :
    ∃ condition' body', b = .whileStatement condition' body' placement ∧ Alike condition.toJson condition'.toJson ∧
      Alike (.object body.members) (.object body'.members) := by
  cases b with
  | whileStatement condition' body' placement' =>
    obtain ⟨hcondition, hbody, rfl⟩ : Alike condition.toJson condition'.toJson ∧
        Alike (.object body.members) (.object body'.members) ∧ placement = placement' := by
      simpa using h
    exact ⟨condition', body', rfl, hcondition, hbody⟩
  | _ => exact nomatch Statement.kind_eq h

/-- What is written like a block of its own is one, and so is its body. -/
theorem Statement.of_alike_doStatement {body placement} {b : Statement}
    (h : Alike (Statement.doStatement body placement).toJson b.toJson) :
    ∃ body', b = .doStatement body' placement ∧ Alike (.object body.members) (.object body'.members) := by
  cases b with
  | doStatement body' placement' =>
    obtain ⟨hbody, rfl⟩ : Alike (.object body.members) (.object body'.members) ∧ placement = placement' := by
      simpa using h
    exact ⟨body', rfl, hbody⟩
  | _ => exact nomatch Statement.kind_eq h

/-- What writes itself like a repeat loop is a repeat loop. -/
theorem Statement.of_alike_repeatStatement {body condition placement} {b : Statement}
    (h : Alike (Statement.repeatStatement body condition placement).toJson b.toJson) :
    ∃ body' condition', b = .repeatStatement body' condition' placement ∧ Alike condition.toJson condition'.toJson ∧
      Alike (.object body.members) (.object body'.members) := by
  cases b with
  | repeatStatement body' condition' placement' =>
    obtain ⟨hcondition, hbody, rfl⟩ : Alike condition.toJson condition'.toJson ∧
        Alike (.object body.members) (.object body'.members) ∧ placement = placement' := by
      simpa using h
    exact ⟨body', condition', rfl, hcondition, hbody⟩
  | _ => exact nomatch Statement.kind_eq h

/-- What writes itself like a local declaration is one with the same names. -/
theorem Statement.of_alike_localStatement {names values placement} {b : Statement}
    (h : Alike (Statement.localStatement names values placement).toJson b.toJson) :
    ∃ values', b = .localStatement names values' placement ∧
      ItemsAlike (expressionsToJson values) (expressionsToJson values') := by
  cases b with
  | localStatement names' values' placement' =>
    obtain ⟨hnames, hvalues, rfl⟩ : ItemsAlike (names.map Declarator.toJson) (names'.map Declarator.toJson) ∧
        ItemsAlike (expressionsToJson values) (expressionsToJson values') ∧ placement = placement' := by
      simpa using h
    obtain rfl := eq_of_itemsAlike (fun _ _ _ _ => Declarator.eq_of_alike) hnames
    exact ⟨values', rfl, hvalues⟩
  | _ => exact nomatch Statement.kind_eq h

/-- What writes itself like an assignment is an assignment. -/
theorem Statement.of_alike_assignment {targets values placement} {b : Statement}
    (h : Alike (Statement.assignment targets values placement).toJson b.toJson) :
    ∃ targets' values', b = .assignment targets' values' placement ∧
      ItemsAlike (expressionsToJson targets) (expressionsToJson targets') ∧
      ItemsAlike (expressionsToJson values) (expressionsToJson values') := by
  cases b with
  | assignment targets' values' placement' =>
    obtain ⟨htargets, hvalues, rfl⟩ : ItemsAlike (expressionsToJson targets) (expressionsToJson targets') ∧
        ItemsAlike (expressionsToJson values) (expressionsToJson values') ∧ placement = placement' := by
      simpa using h
    exact ⟨targets', values', rfl, htargets, hvalues⟩
  | _ => exact nomatch Statement.kind_eq h

/-- What writes itself like a call statement is a call statement. -/
theorem Statement.of_alike_callStatement {call placement} {b : Statement}
    (h : Alike (Statement.callStatement call placement).toJson b.toJson) :
    ∃ call', b = .callStatement call' placement ∧ Alike call.toJson call'.toJson := by
  cases b with
  | callStatement call' placement' =>
    obtain ⟨hcall, rfl⟩ : Alike call.toJson call'.toJson ∧ placement = placement' := by
      simpa using h
    exact ⟨call', rfl, hcall⟩
  | _ => exact nomatch Statement.kind_eq h

/-- What writes itself like a numeric loop is one with the same counter. -/
theorem Statement.of_alike_numericFor {counter start stop step body placement} {b : Statement}
    (h : Alike (Statement.numericFor counter start stop step body placement).toJson b.toJson) :
    ∃ start' stop' step' body', b = .numericFor counter start' stop' step' body' placement ∧
      Alike start.toJson start'.toJson ∧ Alike stop.toJson stop'.toJson ∧
      Alike (optionalToJson step) (optionalToJson step') ∧ Alike (.object body.members) (.object body'.members) := by
  cases b with
  | numericFor counter' start' stop' step' body' placement' =>
    obtain ⟨rfl, hstart, hstop, hstep, hbody, rfl⟩ : counter = counter' ∧ Alike start.toJson start'.toJson ∧
        Alike stop.toJson stop'.toJson ∧ Alike (optionalToJson step) (optionalToJson step') ∧
        Alike (.object body.members) (.object body'.members) ∧ placement = placement' := by
      simpa using h
    exact ⟨start', stop', step', body', rfl, hstart, hstop, hstep, hbody⟩
  | _ => exact nomatch Statement.kind_eq h

/-- What writes itself like a generic loop is one with the same names. -/
theorem Statement.of_alike_genericFor {names iterators body placement} {b : Statement}
    (h : Alike (Statement.genericFor names iterators body placement).toJson b.toJson) :
    ∃ iterators' body', b = .genericFor names iterators' body' placement ∧
      ItemsAlike (expressionsToJson iterators) (expressionsToJson iterators') ∧
      Alike (.object body.members) (.object body'.members) := by
  cases b with
  | genericFor names' iterators' body' placement' =>
    obtain ⟨hnames, hiterators, hbody, rfl⟩ : ItemsAlike (names.map Identifier.toJson) (names'.map Identifier.toJson) ∧
        ItemsAlike (expressionsToJson iterators) (expressionsToJson iterators') ∧
        Alike (.object body.members) (.object body'.members) ∧ placement = placement' := by
      simpa using h
    obtain rfl := eq_of_itemsAlike (fun _ _ _ _ => Identifier.eq_of_alike) hnames
    exact ⟨iterators', body', rfl, hiterators, hbody⟩
  | _ => exact nomatch Statement.kind_eq h

/-- What writes itself like the declaration of a structure is that declaration. -/
theorem Statement.of_alike_structureDeclaration {name fields placement} {b : Statement}
    (h : Alike (Statement.structureDeclaration name fields placement).toJson b.toJson) :
    b = .structureDeclaration name fields placement := by
  cases b with
  | structureDeclaration name' fields' placement' =>
    obtain ⟨rfl, hfields, rfl⟩ : name = name' ∧
        ItemsAlike (fields.map StructureEntry.toJson) (fields'.map StructureEntry.toJson) ∧ placement = placement' := by
      simpa using h
    obtain rfl := eq_of_itemsAlike (fun _ _ _ _ => StructureEntry.eq_of_alike) hfields
    exact rfl
  | _ => exact nomatch Statement.kind_eq h

/-- What writes itself like a function statement is a function statement. -/
theorem Statement.of_alike_functionStatement {function} {b : Statement}
    (h : Alike (Statement.functionStatement function).toJson b.toJson) :
    ∃ function', b = .functionStatement function' ∧ Alike function.toJson function'.toJson := by
  cases b with
  | functionStatement function' => exact ⟨function', rfl, h⟩
  | _ => exact nomatch Statement.kind_eq h

/-- Tables write themselves alike exactly when their fields do and they stand at the same place. -/
theorem Table.alike_iff {fields fields' placement placement'} :
    Alike (Table.mk fields placement).toJson (Table.mk fields' placement').toJson ↔
      ItemsAlike (tableFieldsToJson fields) (tableFieldsToJson fields') ∧ placement = placement' := by
  simp [Table.toJson]

/-- Fields of `make` write themselves alike exactly when they have the same key and place, and like values. -/
theorem MakeField.alike_iff {key key' value value' placement placement'} :
    Alike (MakeField.mk key value placement).toJson (MakeField.mk key' value' placement').toJson ↔
      key = key' ∧ Alike value.toJson value'.toJson ∧ placement = placement' := by
  simp [MakeField.toJson]

/-- Functions write themselves alike exactly when they are alike in every part. -/
theorem Function.alike_iff {name name' isLocal isLocal' parameters parameters' body body' placement placement'} :
    Alike (Function.mk name isLocal parameters body placement).toJson
        (Function.mk name' isLocal' parameters' body' placement').toJson ↔
      Alike (optionalToJson name) (optionalToJson name') ∧ isLocal = isLocal' ∧
        ItemsAlike (parameters.map Parameter.toJson) (parameters'.map Parameter.toJson) ∧
        Alike (.object body.members) (.object body'.members) ∧ placement = placement' := by
  simp [Function.toJson, Block.fresh_members]

end

/-! ## Statements and expressions -/

mutual

/-- Expressions without infinite numbers that write themselves alike are equal. -/
theorem Expression.eq_of_alike : (a b : Expression) → a.Meets .finite → b.Meets .finite →
    Alike a.toJson b.toJson → a = b
  | .identifier _, _, _, _, h => (Expression.of_alike_identifier h).symm
  | .literal leaf, _, ha, hb, h => by
    obtain ⟨leaf', rfl, hleaf⟩ := Expression.of_alike_literal h
    rw [Literal.eq_of_alike ha hb hleaf]
  | .function inner, _, ha, hb, h => by
    obtain ⟨inner', rfl, hinner⟩ := Expression.of_alike_function h
    rw [inner.eq_of_alike inner' ha hb hinner]
  | .table inner, _, ha, hb, h => by
    obtain ⟨inner', rfl, hinner⟩ := Expression.of_alike_table h
    rw [inner.eq_of_alike inner' ha hb hinner]
  | .binary _ left right _, _, ha, hb, h => by
    obtain ⟨left', right', rfl, hleft, hright⟩ := Expression.of_alike_binary h
    rw [left.eq_of_alike left' ha.2.1 hb.2.1 hleft, right.eq_of_alike right' ha.2.2.1 hb.2.2.1 hright]
  | .logical _ left right _, _, ha, hb, h => by
    obtain ⟨left', right', rfl, hleft, hright⟩ := Expression.of_alike_logical h
    rw [left.eq_of_alike left' ha.1 hb.1 hleft, right.eq_of_alike right' ha.2.1 hb.2.1 hright]
  | .unary _ argument _, _, ha, hb, h => by
    obtain ⟨argument', rfl, hargument⟩ := Expression.of_alike_unary h
    rw [argument.eq_of_alike argument' ha.2.1 hb.2.1 hargument]
  | .member base _ _ _, _, ha, hb, h => by
    obtain ⟨base', rfl, hbase⟩ := Expression.of_alike_member h
    rw [base.eq_of_alike base' ha.1 hb.1 hbase]
  | .index base index _, _, ha, hb, h => by
    obtain ⟨base', index', rfl, hbase, hindex⟩ := Expression.of_alike_index h
    rw [base.eq_of_alike base' ha.1 hb.1 hbase, index.eq_of_alike index' ha.2.1 hb.2.1 hindex]
  | .call base arguments _, _, ha, hb, h => by
    obtain ⟨base', arguments', rfl, hbase, harguments⟩ := Expression.of_alike_call h
    rw [base.eq_of_alike base' ha.1 hb.1 hbase, expressions_eq_of_alike arguments arguments' ha.2.1 hb.2.1 harguments]
  | .tableCall base argument _, _, ha, hb, h => by
    obtain ⟨base', argument', rfl, hbase, hargument⟩ := Expression.of_alike_tableCall h
    rw [base.eq_of_alike base' ha.1 hb.1 hbase, argument.eq_of_alike argument' ha.2.1 hb.2.1 hargument]
  | .stringCall base argument _, _, ha, hb, h => by
    obtain ⟨base', argument', rfl, hbase, hargument⟩ := Expression.of_alike_stringCall h
    rw [base.eq_of_alike base' ha.1 hb.1 hbase, Literal.eq_of_alike ha.2.1 hb.2.1 hargument]
  | .make _ fields _, _, ha, hb, h => by
    obtain ⟨fields', rfl, hfields⟩ := Expression.of_alike_make h
    rw [makeFields_eq_of_alike fields fields' ha.2.2.1 hb.2.2.1 hfields]
termination_by structural a => a

/-- Lists of expressions that write themselves alike are equal. -/
theorem expressions_eq_of_alike : (a b : List Expression) → expressionsMeet .finite a → expressionsMeet .finite b →
    ItemsAlike (expressionsToJson a) (expressionsToJson b) → a = b
  | [], [], _, _, _ => rfl
  | [], _ :: _, _, _, h => nomatch h
  | _ :: _, [], _, _, h => nomatch h
  | a :: as, b :: bs, ha, hb, .cons h hrest => by
    rw [a.eq_of_alike b ha.1 hb.1 h, expressions_eq_of_alike as bs ha.2 hb.2 hrest]
termination_by structural a => a

/-- Optional expressions that write themselves alike are equal. -/
theorem expression?_eq_of_alike : (a b : Option Expression) → expressionMeets? .finite a → expressionMeets? .finite b →
    Alike (optionalToJson a) (optionalToJson b) → a = b
  | none, none, _, _, _ => rfl
  | none, some b, _, _, h => absurd h b.isNode.not_alike_null.1
  | some a, none, _, _, h => absurd h a.isNode.not_alike_null.2
  | some a, some b, ha, hb, h => by rw [a.eq_of_alike b ha hb h]
termination_by structural a => a

/-- Tables that write themselves alike are equal. -/
theorem Table.eq_of_alike : (a b : Table) → a.Meets .finite → b.Meets .finite → Alike a.toJson b.toJson → a = b
  | .mk fields _, .mk fields' _, ha, hb, h => by
    obtain ⟨hfields, rfl⟩ := Table.alike_iff.mp h
    rw [tableFields_eq_of_alike fields fields' ha.1 hb.1 hfields]
termination_by structural a => a

/-- Fields that write themselves alike are equal. -/
theorem TableField.eq_of_alike : (a b : TableField) → a.Meets .finite → b.Meets .finite →
    Alike a.toJson b.toJson → a = b
  | .keyed key value _, _, ha, hb, h => by
    obtain ⟨key', value', rfl, hkey, hvalue⟩ := TableField.of_alike_keyed h
    rw [key.eq_of_alike key' ha.1 hb.1 hkey, value.eq_of_alike value' ha.2.1 hb.2.1 hvalue]
  | .named _ value _, _, ha, hb, h => by
    obtain ⟨value', rfl, hvalue⟩ := TableField.of_alike_named h
    rw [value.eq_of_alike value' ha.2.1 hb.2.1 hvalue]
  | .positional value _, _, ha, hb, h => by
    obtain ⟨value', rfl, hvalue⟩ := TableField.of_alike_positional h
    rw [value.eq_of_alike value' ha.1 hb.1 hvalue]
termination_by structural a => a

/-- Lists of fields that write themselves alike are equal. -/
theorem tableFields_eq_of_alike : (a b : List TableField) → tableFieldsMeet .finite a → tableFieldsMeet .finite b →
    ItemsAlike (tableFieldsToJson a) (tableFieldsToJson b) → a = b
  | [], [], _, _, _ => rfl
  | [], _ :: _, _, _, h => nomatch h
  | _ :: _, [], _, _, h => nomatch h
  | a :: as, b :: bs, ha, hb, .cons h hrest => by
    rw [a.eq_of_alike b ha.1 hb.1 h, tableFields_eq_of_alike as bs ha.2 hb.2 hrest]
termination_by structural a => a

/-- Fields of `make` that write themselves alike are equal. -/
theorem MakeField.eq_of_alike : (a b : MakeField) → a.Meets .finite → b.Meets .finite →
    Alike a.toJson b.toJson → a = b
  | .mk _ value _, .mk _ value' _, ha, hb, h => by
    obtain ⟨rfl, hvalue, rfl⟩ := MakeField.alike_iff.mp h
    rw [value.eq_of_alike value' ha.2.1 hb.2.1 hvalue]
termination_by structural a => a

/-- Lists of fields of `make` that write themselves alike are equal. -/
theorem makeFields_eq_of_alike : (a b : List MakeField) → makeFieldsMeet .finite a → makeFieldsMeet .finite b →
    ItemsAlike (makeFieldsToJson a) (makeFieldsToJson b) → a = b
  | [], [], _, _, _ => rfl
  | [], _ :: _, _, _, h => nomatch h
  | _ :: _, [], _, _, h => nomatch h
  | a :: as, b :: bs, ha, hb, .cons h hrest => by
    rw [a.eq_of_alike b ha.1 hb.1 h, makeFields_eq_of_alike as bs ha.2 hb.2 hrest]
termination_by structural a => a

/-- Functions that write themselves alike are equal. -/
theorem Function.eq_of_alike : (a b : Function) → a.Meets .finite → b.Meets .finite → Alike a.toJson b.toJson → a = b
  | .mk name _ _ body _, .mk name' _ _ body' _, ha, hb, h => by
    obtain ⟨hname, rfl, hparameters, hbody, rfl⟩ := Function.alike_iff.mp h
    rw [expression?_eq_of_alike name name' ha.1 hb.1 hname, body.eq_of_alike body' ha.2.2.1 hb.2.2.1 hbody,
      eq_of_itemsAlike (fun a hmem b hmem' => Parameter.eq_of_alike (ha.2.1 a hmem) (hb.2.1 b hmem')) hparameters]
termination_by structural a => a

/-- Blocks that write themselves alike are equal. -/
theorem Block.eq_of_alike : (a b : Block) → a.Meets .finite → b.Meets .finite →
    Alike (.object a.members) (.object b.members) → a = b
  | .mk statements scope, .mk statements' scope', ha, hb, h => by
    obtain ⟨hstatements, hscope⟩ := (alike_cons (fresh_member? (by decide))).mp h
    rw [statements_eq_of_alike statements statements' ha.1 hb.1 (alike_list.mp hstatements),
      scope_eq_of_alike (alike_lone_member?.mp hscope)]
termination_by structural a => a

/-- Clauses that write themselves alike are equal. -/
theorem Clause.eq_of_alike : (a b : Clause) → a.Meets .finite → b.Meets .finite → Alike a.toJson b.toJson → a = b
  | .ifClause condition body _, _, ha, hb, h => by
    obtain ⟨condition', body', rfl, hcondition, hbody⟩ := Clause.of_alike_ifClause h
    rw [condition.eq_of_alike condition' ha.1 hb.1 hcondition, body.eq_of_alike body' ha.2.1 hb.2.1 hbody]
  | .elseifClause condition body _, _, ha, hb, h => by
    obtain ⟨condition', body', rfl, hcondition, hbody⟩ := Clause.of_alike_elseifClause h
    rw [condition.eq_of_alike condition' ha.1 hb.1 hcondition, body.eq_of_alike body' ha.2.1 hb.2.1 hbody]
  | .elseClause body _, _, ha, hb, h => by
    obtain ⟨body', rfl, hbody⟩ := Clause.of_alike_elseClause h
    rw [body.eq_of_alike body' ha.1 hb.1 hbody]
termination_by structural a => a

/-- Lists of clauses that write themselves alike are equal. -/
theorem clauses_eq_of_alike : (a b : List Clause) → clausesMeet .finite a → clausesMeet .finite b →
    ItemsAlike (clausesToJson a) (clausesToJson b) → a = b
  | [], [], _, _, _ => rfl
  | [], _ :: _, _, _, h => nomatch h
  | _ :: _, [], _, _, h => nomatch h
  | a :: as, b :: bs, ha, hb, .cons h hrest => by
    rw [a.eq_of_alike b ha.1 hb.1 h, clauses_eq_of_alike as bs ha.2 hb.2 hrest]
termination_by structural a => a

/-- Statements that write themselves alike are equal. -/
theorem Statement.eq_of_alike : (a b : Statement) → a.Meets .finite → b.Meets .finite →
    Alike a.toJson b.toJson → a = b
  | .labelStatement .., _, _, _, h => (Statement.of_alike_labelStatement h).symm
  | .breakStatement _, _, _, _, h => (Statement.of_alike_breakStatement h).symm
  | .gotoStatement .., _, _, _, h => (Statement.of_alike_gotoStatement h).symm
  | .structureDeclaration .., _, _, _, h => (Statement.of_alike_structureDeclaration h).symm
  | .returnStatement arguments _, _, ha, hb, h => by
    obtain ⟨arguments', rfl, harguments⟩ := Statement.of_alike_returnStatement h
    rw [expressions_eq_of_alike arguments arguments' ha.1 hb.1 harguments]
  | .ifStatement clauses _, _, ha, hb, h => by
    obtain ⟨clauses', rfl, hclauses⟩ := Statement.of_alike_ifStatement h
    rw [clauses_eq_of_alike clauses clauses' ha.1 hb.1 hclauses]
  | .whileStatement condition body _, _, ha, hb, h => by
    obtain ⟨condition', body', rfl, hcondition, hbody⟩ := Statement.of_alike_whileStatement h
    rw [condition.eq_of_alike condition' ha.1 hb.1 hcondition, body.eq_of_alike body' ha.2.1 hb.2.1 hbody]
  | .doStatement body _, _, ha, hb, h => by
    obtain ⟨body', rfl, hbody⟩ := Statement.of_alike_doStatement h
    rw [body.eq_of_alike body' ha.1 hb.1 hbody]
  | .repeatStatement body condition _, _, ha, hb, h => by
    obtain ⟨body', condition', rfl, hcondition, hbody⟩ := Statement.of_alike_repeatStatement h
    rw [body.eq_of_alike body' ha.1 hb.1 hbody, condition.eq_of_alike condition' ha.2.1 hb.2.1 hcondition]
  | .localStatement _ values _, _, ha, hb, h => by
    obtain ⟨values', rfl, hvalues⟩ := Statement.of_alike_localStatement h
    rw [expressions_eq_of_alike values values' ha.2.1 hb.2.1 hvalues]
  | .assignment targets values _, _, ha, hb, h => by
    obtain ⟨targets', values', rfl, htargets, hvalues⟩ := Statement.of_alike_assignment h
    rw [expressions_eq_of_alike targets targets' ha.1 hb.1 htargets,
      expressions_eq_of_alike values values' ha.2.1 hb.2.1 hvalues]
  | .callStatement call _, _, ha, hb, h => by
    obtain ⟨call', rfl, hcall⟩ := Statement.of_alike_callStatement h
    rw [call.eq_of_alike call' ha.1 hb.1 hcall]
  | .functionStatement function, _, ha, hb, h => by
    obtain ⟨function', rfl, hfunction⟩ := Statement.of_alike_functionStatement h
    rw [function.eq_of_alike function' ha hb hfunction]
  | .numericFor _ start stop step body _, _, ha, hb, h => by
    obtain ⟨start', stop', step', body', rfl, hstart, hstop, hstep, hbody⟩ := Statement.of_alike_numericFor h
    obtain ⟨-, hastart, hastop, hastep, habody, -⟩ := ha
    obtain ⟨-, hbstart, hbstop, hbstep, hbbody, -⟩ := hb
    rw [start.eq_of_alike start' hastart hbstart hstart, stop.eq_of_alike stop' hastop hbstop hstop,
      expression?_eq_of_alike step step' hastep hbstep hstep, body.eq_of_alike body' habody hbbody hbody]
  | .genericFor _ iterators body _, _, ha, hb, h => by
    obtain ⟨iterators', body', rfl, hiterators, hbody⟩ := Statement.of_alike_genericFor h
    rw [expressions_eq_of_alike iterators iterators' ha.2.1 hb.2.1 hiterators,
      body.eq_of_alike body' ha.2.2.1 hb.2.2.1 hbody]
termination_by structural a => a

/-- Lists of statements that write themselves alike are equal. -/
theorem statements_eq_of_alike : (a b : List Statement) → statementsMeet .finite a → statementsMeet .finite b →
    ItemsAlike (statementsToJson a) (statementsToJson b) → a = b
  | [], [], _, _, _ => rfl
  | [], _ :: _, _, _, h => nomatch h
  | _ :: _, [], _, _, h => nomatch h
  | a :: as, b :: bs, ha, hb, .cons h hrest => by
    rw [a.eq_of_alike b ha.1 hb.1 h, statements_eq_of_alike as bs ha.2 hb.2 hrest]
termination_by structural a => a

end

/-- Chunks that hold no numbers but finite ones are written as the same JSON, in whatever order members are found in it,
exactly if they are the same. -/
theorem Chunk.toJson_alike_iff {a b : Chunk} (ha : a.Meets .finite) (hb : b.Meets .finite) :
    Alike a.toJson b.toJson ↔ a = b := by
  refine ⟨fun h => ?_, fun h => h ▸ .refl _⟩
  obtain ⟨⟨statements, scope⟩, comments, globals, placement⟩ := a
  obtain ⟨⟨statements', scope'⟩, comments', globals', placement'⟩ := b
  obtain ⟨hstatements, hscope, hcomments, hglobals, rfl⟩ :
      ItemsAlike (statementsToJson statements) (statementsToJson statements') ∧
      Option.Rel Alike (scope.map fun bindings => .list (bindings.map Binding.toJson))
        (scope'.map fun bindings => .list (bindings.map Binding.toJson)) ∧
      Option.Rel Alike (comments.map fun comments => .list (comments.map Comment.toJson))
        (comments'.map fun comments => .list (comments.map Comment.toJson)) ∧
      Option.Rel Alike (globals.map fun names => .list (names.map Identifier.toJson))
        (globals'.map fun names => .list (names.map Identifier.toJson)) ∧ placement = placement' := by
    simpa [Chunk.toJson, Block.members, scopeMembers] using h
  rw [statements_eq_of_alike statements statements' ha.1.1 hb.1.1 hstatements, scope_eq_of_alike hscope,
    eq_of_optionRel (fun _ _ _ _ h => eq_of_itemsAlike (fun _ _ _ _ => Comment.eq_of_alike) (alike_list.mp h)) hcomments,
    eq_of_optionRel (fun _ _ _ _ h => eq_of_itemsAlike (fun _ _ _ _ => Identifier.eq_of_alike) (alike_list.mp h)) hglobals]

/-- A chunk that returns some numbers. -/
def returning (values : List Float) : Chunk where
  body := .mk [.returnStatement (values.map fun value => .literal ⟨.number value, "", .none⟩) .none] none
  comments := none
  globals := none
  placement := .none

/-- A chunk that returns finite numbers holds finite numbers only. -/
theorem returning_meets {values : List Float} (h : ∀ value ∈ values, value.isFinite = true) :
    (returning values).Meets .finite := by
  refine ⟨⟨⟨⟨expressionsMeet_iff.mpr fun expression hmem => ?_, trivial⟩, trivial⟩, nofun⟩, nofun, nofun, trivial⟩
  obtain ⟨value, hvalue, rfl⟩ := List.mem_map.mp hmem
  rintro _ ⟨⟩
  exact h value hvalue

/-- Two chunks that differ in the value of one number are not written as the same JSON. -/
theorem toJson_tells_numbers : (returning [1.5, 2]).Meets .finite ∧ (returning [1.5, 3]).Meets .finite ∧
    ¬ Alike (returning [1.5, 2]).toJson (returning [1.5, 3]).toJson := by
  have htwo : (returning [1.5, 2]).Meets .finite := returning_meets (by decide)
  have hthree : (returning [1.5, 3]).Meets .finite := returning_meets (by decide)
  refine ⟨htwo, hthree, fun h => absurd ((Chunk.toJson_alike_iff htwo hthree).mp h) fun heq => ?_⟩
  have hvalue : (2 : Float) = 3 := by simpa [returning] using heq
  exact absurd hvalue (by decide)

end LuaSyntax
