import LuaSyntax.Proofs.Tree.Demands
import LuaSyntax.Proofs.Tree.Items

/-!
# What is asked of a tree is asked of every node

A node that meets some demands is made of nodes that do, so all that is inside it meets them.
-/

namespace LuaSyntax

section Meets

variable (demands : Demands)

/-- Whether a node and all in it meet some demands. -/
def Node.Meets : Node → Prop
  | .chunk inner => inner.Meets demands
  | .statement inner => inner.Meets demands
  | .expression inner => inner.Meets demands
  | .identifier inner => demands.identifier inner
  | .literal inner => demands.literal inner
  | .table inner => inner.Meets demands
  | .typedIdentifier inner => inner.Meets demands
  | .clause inner => inner.Meets demands
  | .tableField inner => inner.Meets demands
  | .structureEntry inner => inner.Meets demands
  | .makeField inner => inner.Meets demands
  | .comment inner => demands.comment inner

/-- Whether what stands at an item meets some demands. The end of a block says nothing. -/
def Item.Meets (item : Item) : Prop := ∀ node ∈ item.node?, node.Meets demands

end Meets

variable {demands : Demands}

/-- The item of an expression meets what the expression does. -/
theorem Expression.Meets.item {expression : Expression} (h : expression.Meets demands) :
    expression.item.Meets demands := by
  rintro node hnode
  cases expression <;> cases hnode <;> exact h

/-- The item of a declarator meets what the declarator does. -/
theorem Declarator.Meets.item {declarator : Declarator} (h : declarator.Meets demands) :
    declarator.item.Meets demands := by
  rintro node hnode
  cases declarator <;> cases hnode <;> exact h

/-- The item of a parameter meets what the parameter does. -/
theorem Parameter.Meets.item {parameter : Parameter} (h : parameter.Meets demands) :
    parameter.item.Meets demands := by
  rintro node hnode
  cases parameter <;> cases hnode <;> exact h

/-- A node that meets some demands is an item that does. -/
theorem Node.Meets.item {node : Node} (h : node.Meets demands) : (Item.node node).Meets demands :=
  fun _ hnode => Option.some.inj hnode ▸ h

/-- A scope meets all demands. -/
theorem Item.meets_scope (scope : Option (List Binding)) : (Item.scope scope).Meets demands := nofun

/-- Whether all of some items meet some demands. -/
def ItemsMeet (demands : Demands) (items : List Item) : Prop := ∀ item ∈ items, item.Meets demands

section

variable {item : Item} {items others : List Item}

/-- No items meet all demands. -/
theorem ItemsMeet.nil : ItemsMeet demands [] := List.forall_mem_nil _

/-- Items meet demands if the first and the others do. -/
theorem ItemsMeet.cons (h : item.Meets demands) (h' : ItemsMeet demands items) :
    ItemsMeet demands (item :: items) :=
  List.forall_mem_cons.mpr ⟨h, h'⟩

/-- Items meet demands if the first and the second part do. -/
theorem ItemsMeet.append (h : ItemsMeet demands items) (h' : ItemsMeet demands others) :
    ItemsMeet demands (items ++ others) :=
  List.forall_mem_append.mpr ⟨h, h'⟩

/-- Items made of values meet demands if each does. -/
theorem ItemsMeet.map {α : Type} {make : α → Item} {list : List α}
    (h : ∀ a ∈ list, (make a).Meets demands) : ItemsMeet demands (list.map make) :=
  List.forall_mem_map.mpr h

end

/-- The items of expressions meet what these do. -/
theorem expressionsMeet.items {expressions : List Expression} (h : expressionsMeet demands expressions) :
    ItemsMeet demands (expressions.map Expression.item) :=
  .map fun _ hmem => (expressionsMeet_iff.mp h _ hmem).item

/-- The item of an optional expression meets what this does. -/
theorem expressionMeets?.items {expression : Option Expression}
    (h : expressionMeets? demands expression) :
    ItemsMeet demands (expression.toList.map Expression.item) :=
  .map fun _ hmem => (expressionMeets?_iff.mp h _ (Option.mem_toList.mp hmem)).item

/-- The items of statements meet what these do. -/
theorem statementsMeet.items {statements : List Statement} (h : statementsMeet demands statements) :
    ItemsMeet demands (statements.map Statement.item) :=
  .map fun _ hmem => Node.Meets.item (statementsMeet_iff.mp h _ hmem)

/-- The items of a block meet what the block does. -/
theorem Block.Meets.items {block : Block} (h : block.Meets demands) : ItemsMeet demands block.items := by
  obtain ⟨statements, scope⟩ := block
  exact (statementsMeet.items h.1).append (.cons (Item.meets_scope scope) .nil)

/-- The items of a function meet what the function does. -/
theorem Function.Meets.items {function : Function} (h : function.Meets demands) :
    ItemsMeet demands function.items := by
  obtain ⟨name, isLocal, parameters, body, placement⟩ := function
  obtain ⟨hname, hparameters, hbody, -⟩ := h
  exact ((expressionMeets?.items hname).append (.map fun _ hmem => (hparameters _ hmem).item)).append
    hbody.items

/-- The items of a table meet what the table does. -/
theorem Table.Meets.items {table : Table} (h : table.Meets demands) : ItemsMeet demands table.items := by
  obtain ⟨fields, placement⟩ := table
  exact .map fun _ hmem => Node.Meets.item (tableFieldsMeet_iff.mp h.1 _ hmem)

/-- A name in a node. -/
theorem Identifier.meets_item {identifier : Identifier} (h : demands.identifier identifier) :
    identifier.item.Meets demands :=
  @Node.Meets.item _ (.identifier identifier) h

/-- The items of an expression meet what the expression does. -/
theorem Expression.Meets.items {expression : Expression} (h : expression.Meets demands) :
    ItemsMeet demands expression.items := by
  cases expression with
  | identifier => exact .nil
  | literal => exact .nil
  | function inner => exact Function.Meets.items h
  | table inner => exact Table.Meets.items h
  | binary operator left right => exact .cons h.2.1.item (.cons h.2.2.1.item .nil)
  | logical operator left right => exact .cons h.1.item (.cons h.2.1.item .nil)
  | unary operator argument => exact .cons h.2.1.item .nil
  | member base indexer name => exact .cons h.1.item (.cons (Identifier.meets_item h.2.1) .nil)
  | index base key => exact .cons h.1.item (.cons h.2.1.item .nil)
  | call base arguments => exact .cons h.1.item h.2.1.items
  | tableCall base argument =>
    exact .cons h.1.item (.cons (@Node.Meets.item _ (.table argument) h.2.1) .nil)
  | stringCall base argument =>
    exact .cons h.1.item (.cons (@Node.Meets.item _ (.literal argument) h.2.1) .nil)
  | make type fields =>
    exact .cons (Identifier.meets_item h.2.1)
      (.map fun _ hmem => Node.Meets.item (makeFieldsMeet_iff.mp h.2.2.1 _ hmem))

/-- The items of a statement meet what the statement does. -/
theorem Statement.Meets.items {statement : Statement} (h : statement.Meets demands) :
    ItemsMeet demands statement.items := by
  cases statement with
  | labelStatement label => exact .cons (Identifier.meets_item h.2.1) .nil
  | breakStatement => exact .nil
  | gotoStatement label => exact .cons (Identifier.meets_item h.2.1) .nil
  | returnStatement arguments => exact h.1.items
  | ifStatement clauses => exact .map fun _ hmem => Node.Meets.item (clausesMeet_iff.mp h.1 _ hmem)
  | whileStatement condition body => exact .cons h.1.item h.2.1.items
  | doStatement body => exact h.1.items
  | repeatStatement body condition =>
    obtain ⟨statements, scope⟩ := body
    exact (statementsMeet.items h.1.1).append
      (.cons h.2.1.item (.cons (Item.meets_scope scope) .nil))
  | localStatement names values => exact .append (.map fun _ hmem => (h.1 _ hmem).item) h.2.1.items
  | assignment targets values => exact h.1.items.append h.2.1.items
  | callStatement call => exact .cons h.1.item .nil
  | functionStatement inner => exact Function.Meets.items h
  | numericFor counter start stop step body =>
    obtain ⟨hcounter, hstart, hstop, hstep, hbody, -⟩ := h
    exact .cons (Identifier.meets_item hcounter) (.cons hstart.item
      (.cons hstop.item (hstep.items.append hbody.items)))
  | genericFor names iterators body =>
    obtain ⟨hnames, hiterators, hbody, -⟩ := h
    exact ((ItemsMeet.map fun _ hmem => Identifier.meets_item (hnames _ hmem)).append
      hiterators.items).append hbody.items
  | structureDeclaration name fields =>
    exact .cons (Identifier.meets_item h.2.1) (.map fun _ hmem => Node.Meets.item (h.2.2.1 _ hmem))

/-- The items of a node meet what the node does. -/
theorem Node.Meets.items {node : Node} (h : node.Meets demands) : ItemsMeet demands node.items := by
  cases node with
  | chunk inner => exact h.1.items
  | statement inner => exact Statement.Meets.items h
  | expression inner => exact Expression.Meets.items h
  | identifier => exact .nil
  | literal => exact .nil
  | table inner => exact Table.Meets.items h
  | typedIdentifier inner =>
    exact .cons (Identifier.meets_item h.2.1) (.cons (Identifier.meets_item h.2.2.1) .nil)
  | clause inner =>
    cases inner with
    | ifClause condition body => exact .cons h.1.item h.2.1.items
    | elseifClause condition body => exact .cons h.1.item h.2.1.items
    | elseClause body => exact h.1.items
  | tableField inner =>
    cases inner with
    | keyed key value => exact .cons h.1.item (.cons h.2.1.item .nil)
    | named key value => exact .cons (Identifier.meets_item h.1) (.cons h.2.1.item .nil)
    | positional value => exact .cons h.1.item .nil
  | structureEntry inner =>
    exact .cons (Identifier.meets_item h.1) (.cons (Identifier.meets_item h.2.1) .nil)
  | makeField inner =>
    obtain ⟨key, value, placement⟩ := inner
    exact .cons (Identifier.meets_item h.1) (.cons h.2.1.item .nil)
  | comment => exact .nil

/-- All nodes in a node that meets some demands meet them. -/
theorem Node.Meets.postorder {node : Node} (h : node.Meets demands) :
    ∀ inner ∈ node.postorder, inner.Meets demands :=
  Node.forall_postorder (fun _ houter _ hmem => houter.items _ (Node.mem_children.mp hmem) _ rfl) h

end LuaSyntax
