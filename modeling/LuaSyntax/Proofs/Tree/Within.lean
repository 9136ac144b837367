import Mathlib.Data.List.Basic
import LuaSyntax.Grammar.Expression
import LuaSyntax.Proofs.Tree.Items

/-!
# Statements in a tree

Statements are found in blocks only, and blocks in statements and functions. `Within` says of a statement that it is
one of some items or somewhere in them, and the lemmas take the items apart.
-/

namespace LuaSyntax

open Grammar (joined)

/-- Whether a statement is an item or in it. -/
def Item.Encloses (item : Item) (statement : Statement) : Prop :=
  ∃ node, item = .node node ∧ .statement statement ∈ node.postorder

/-- Whether a statement is one of some items or in one of them. -/
def Within (items : List Item) (statement : Statement) : Prop := ∃ item ∈ items, item.Encloses statement

variable {items others : List Item} {item : Item} {statement : Statement}

/-- No statement is within no items. -/
@[simp] theorem within_nil : Within [] statement ↔ False := by simp [Within]

/-- A statement is within items if it is in the first or within the others. -/
@[simp] theorem within_cons : Within (item :: items) statement ↔ item.Encloses statement ∨ Within items statement :=
  List.exists_mem_cons_iff ..

/-- A statement is within two parts if it is within one of them. -/
@[simp] theorem within_append :
    Within (items ++ others) statement ↔ Within items statement ∨ Within others statement := by
  simp only [Within, List.mem_append, or_and_right, exists_or]

/-- A statement is within items made of values if one of them has it inside. -/
@[simp] theorem within_map {α : Type} {make : α → Item} {list : List α} :
    Within (list.map make) statement ↔ ∃ a ∈ list, (make a).Encloses statement := by
  simp only [Within, List.mem_map, exists_exists_and_eq_and]

/-- A scope has no statement inside. -/
@[simp] theorem encloses_scope (bindings : Option (List Binding)) :
    (Item.scope bindings).Encloses statement ↔ False := by
  simp [Item.Encloses]

/-- A node has a statement inside if it is that statement, or it is within the items of the node. -/
theorem encloses_iff (node : Node) :
    (Item.node node).Encloses statement ↔ node = .statement statement ∨ Within node.items statement := by
  constructor
  · rintro ⟨_, heq, hinside⟩
    obtain rfl := Item.node.inj heq
    rcases Node.mem_postorder.mp hinside with ⟨child, hmem, hinside⟩ | heq
    · exact .inr ⟨_, Node.mem_children.mp hmem, child, rfl, hinside⟩
    · exact .inl heq.symm
  · rintro (rfl | ⟨_, hmem, child, rfl, hinside⟩)
    · exact ⟨_, rfl, Node.mem_postorder.mpr (.inr rfl)⟩
    · exact ⟨_, rfl, Node.mem_postorder.mpr (.inl ⟨child, Node.mem_children.mpr hmem, hinside⟩)⟩

/-- A node that is no statement has inside what is within its items. -/
theorem encloses_node (node : Node) (h : ∀ other, node ≠ .statement other) :
    (Item.node node).Encloses statement ↔ Within node.items statement :=
  (encloses_iff node).trans (or_iff_right (h statement))

/-- A statement has inside itself and what is within its items. -/
@[simp] theorem encloses_statement (other : Statement) :
    other.item.Encloses statement ↔ statement = other ∨ Within other.items statement := by
  rw [Statement.item, encloses_iff, Node.statement.injEq, eq_comm]
  rfl

/-- An identifier has no statement inside. -/
@[simp] theorem encloses_identifier (name : Identifier) : name.item.Encloses statement ↔ False :=
  (encloses_node (.identifier name) nofun).trans within_nil

/-- A literal has no statement inside. -/
@[simp] theorem encloses_literal (literal : Literal) : literal.item.Encloses statement ↔ False :=
  (encloses_node (.literal literal) nofun).trans within_nil

/-- A name with a type has no statement inside. -/
theorem encloses_typed (name : TypedIdentifier) :
    (Item.node (.typedIdentifier name)).Encloses statement ↔ False := by
  refine (encloses_node (.typedIdentifier name) nofun).trans ?_
  simp [Node.items]

/-- A declarator has no statement inside. -/
@[simp] theorem encloses_declarator (name : Declarator) : name.item.Encloses statement ↔ False := by
  cases name with
  | plain name => exact encloses_identifier name
  | typed name => exact encloses_typed name

/-- A parameter has no statement inside. -/
@[simp] theorem encloses_parameter (parameter : Parameter) : parameter.item.Encloses statement ↔ False := by
  cases parameter with
  | plain name => exact encloses_identifier name
  | typed name => exact encloses_typed name
  | vararg dots => exact encloses_literal dots

/-- An expression has inside what is within its items. -/
@[simp] theorem encloses_expression (expression : Expression) :
    expression.item.Encloses statement ↔ Within expression.items statement := by
  cases expression with
  | identifier name => exact (encloses_identifier name).trans within_nil.symm
  | literal leaf => exact (encloses_literal leaf).trans within_nil.symm
  | table inner => exact encloses_node (.table inner) nofun
  | _ => exact encloses_node (.expression _) nofun

/-- No statement is within a name. -/
@[simp] theorem within_name (name : Identifier) : Within (Expression.identifier name).items statement ↔ False :=
  within_nil

/-- A statement is within a member if it is within its base. -/
@[simp] theorem within_member (base : Expression) (indexer : Indexer) (name : Identifier) (placement : Placement) :
    Within (Expression.member base indexer name placement).items statement ↔ Within base.items statement := by
  simp [Expression.items]

/-- A statement is within a block if it is within its statements. -/
@[simp] theorem within_block (body : Block) :
    Within body.items statement ↔ Within (body.statements.map Statement.item) statement := by
  obtain ⟨statements, scope⟩ := body
  rw [Block.items, within_append, within_cons, encloses_scope, within_nil, or_self, or_false, Block.statements]

/-- A statement is within an operation if it is within an operand. -/
theorem within_joined (operator : Operator) (left right : Expression) (placement : Placement) :
    Within (joined operator left right placement).items statement ↔
      Within left.items statement ∨ Within right.items statement := by
  cases operator <;> simp [joined, Expression.items]

end LuaSyntax
