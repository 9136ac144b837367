import LuaSyntax.Tree.Node

/-!
# What nodes are made of

A node is made of other nodes and, if a block ends with it, of the scope of that block. `Node.items` lists
them in the order in which they are written, and everything that is said of a tree as a whole follows from
that list: `Node.postorder` are a node and all nodes that are inside it, the parts before the whole, and
`Node.scopes` the names that were declared in the blocks of these nodes.

A name is met before it is known to be local. `asRead` is the name as it was met then; what is made of it
later differs in nothing else.
-/

namespace LuaSyntax

/-- What a node is made of. -/
inductive Item where
  | node (node : Node)
  /-- The end of a block, and the names declared in it if they were resolved. -/
  | scope (bindings : Option (List Binding))
  /-- The beginning of a block of which the end has not come. No complete node has such a one. -/
  | opened

/-! ## Items of nodes -/

/-- A name as an item. -/
def Identifier.item (identifier : Identifier) : Item := .node (.identifier identifier)

/-- A literal as an item. -/
def Literal.item (literal : Literal) : Item := .node (.literal literal)

/-- A declared name as an item. -/
def Declarator.item : Declarator → Item
  | .plain identifier => identifier.item
  | .typed declared => .node (.typedIdentifier declared)

/-- A parameter as an item. -/
def Parameter.item : Parameter → Item
  | .plain identifier => identifier.item
  | .typed declared => .node (.typedIdentifier declared)
  | .vararg dots => dots.item

/-- An expression as an item. Names, literals and tables are met as such wherever they stand. -/
def Expression.item : Expression → Item
  | .identifier name => name.item
  | .literal leaf => leaf.item
  | .table inner => .node (.table inner)
  | expression => .node (.expression expression)

/-- A statement as an item. -/
def Statement.item (statement : Statement) : Item := .node (.statement statement)

/-- What a block is made of. -/
def Block.items : Block → List Item
  | .mk statements scope => statements.map Statement.item ++ [.scope scope]

/-- What a function is made of. -/
def Function.items : Function → List Item
  | .mk name _ parameters body _ =>
    name.toList.map Expression.item ++ parameters.map Parameter.item ++ body.items

/-- What a table constructor is made of. -/
def Table.items : Table → List Item
  | .mk fields _ => fields.map fun field => .node (.tableField field)

/-- What an expression is made of. -/
def Expression.items : Expression → List Item
  | .identifier _ => []
  | .literal _ => []
  | .function inner => inner.items
  | .table inner => inner.items
  | .binary _ left right _ => [left.item, right.item]
  | .logical _ left right _ => [left.item, right.item]
  | .unary _ argument _ => [argument.item]
  | .member base _ name _ => [base.item, name.item]
  | .index base key _ => [base.item, key.item]
  | .call base arguments _ => base.item :: arguments.map Expression.item
  | .tableCall base argument _ => [base.item, .node (.table argument)]
  | .stringCall base argument _ => [base.item, argument.item]
  | .make type fields _ => type.item :: fields.map fun field => .node (.makeField field)

/-- What a field of a table is made of. -/
def TableField.items : TableField → List Item
  | .keyed key value _ => [key.item, value.item]
  | .named key value _ => [key.item, value.item]
  | .positional value _ => [value.item]

/-- What a field of a structure constructor is made of. -/
def MakeField.items : MakeField → List Item
  | .mk key value _ => [key.item, value.item]

/-- What a clause is made of. -/
def Clause.items : Clause → List Item
  | .ifClause condition body _ => condition.item :: body.items
  | .elseifClause condition body _ => condition.item :: body.items
  | .elseClause body _ => body.items

/-- What a statement is made of. The condition behind a block stands before the block's end, since it
sees the names of the block. -/
def Statement.items : Statement → List Item
  | .labelStatement label _ => [label.item]
  | .breakStatement _ => []
  | .gotoStatement label _ => [label.item]
  | .returnStatement arguments _ => arguments.map Expression.item
  | .ifStatement clauses _ => clauses.map fun clause => .node (.clause clause)
  | .whileStatement condition body _ => condition.item :: body.items
  | .doStatement body _ => body.items
  | .repeatStatement (.mk statements scope) condition _ =>
    statements.map Statement.item ++ [condition.item, .scope scope]
  | .localStatement names values _ => names.map Declarator.item ++ values.map Expression.item
  | .assignment targets values _ => targets.map Expression.item ++ values.map Expression.item
  | .callStatement call _ => [call.item]
  | .functionStatement function => function.items
  | .numericFor counter start stop step body _ =>
    counter.item :: start.item :: stop.item :: step.toList.map Expression.item ++ body.items
  | .genericFor names iterators body _ =>
    names.map Identifier.item ++ iterators.map Expression.item ++ body.items
  | .structureDeclaration name fields _ =>
    name.item :: fields.map fun field => .node (.structureEntry field)

/-- What a node is made of, in the order in which it is written. -/
def Node.items : Node → List Item
  | .chunk inner => inner.body.items
  | .statement inner => inner.items
  | .expression inner => inner.items
  | .identifier _ => []
  | .literal _ => []
  | .table inner => inner.items
  | .typedIdentifier inner => [inner.name.item, inner.type.item]
  | .clause inner => inner.items
  | .tableField inner => inner.items
  | .structureEntry inner => [inner.key.item, inner.type.item]
  | .makeField inner => inner.items
  | .comment _ => []

/-- The node that an item is. -/
def Item.node? : Item → Option Node
  | .node inner => some inner
  | _ => none

/-- The nodes that a node is made of, in the order in which they are written. -/
def Node.children (node : Node) : List Node := node.items.filterMap Item.node?

/-! ## Sizes -/

/-- How large what stands at an item is. -/
noncomputable def Item.size : Item → Nat
  | .node inner => sizeOf inner
  | _ => 0

/-- Whether none of some items is larger than a bound. -/
def ItemsFit (bound : Nat) (items : List Item) : Prop := ∀ item ∈ items, item.size ≤ bound

section

variable {bound : Nat} {item : Item} {items others : List Item}

/-- Items that fit a bound fit a larger one. -/
theorem ItemsFit.mono {less : Nat} (h : ItemsFit less items) (hle : less ≤ bound) :
    ItemsFit bound items :=
  fun item hmem => Nat.le_trans (h item hmem) hle

/-- Items fit a bound if the first and the second part do. -/
theorem ItemsFit.append (h : ItemsFit bound items) (h' : ItemsFit bound others) :
    ItemsFit bound (items ++ others) :=
  List.forall_mem_append.mpr ⟨h, h'⟩

/-- Items fit a bound if the first and the others do. -/
theorem ItemsFit.cons (h : item.size ≤ bound) (h' : ItemsFit bound items) :
    ItemsFit bound (item :: items) :=
  List.forall_mem_cons.mpr ⟨h, h'⟩

/-- No items fit every bound. -/
theorem ItemsFit.nil : ItemsFit bound [] := List.forall_mem_nil _

/-- Items made of the members of a list are no larger than the list. -/
theorem ItemsFit.map {α : Type} [SizeOf α] {make : α → Item} {list : List α}
    (h : ∀ a, (make a).size ≤ 1 + sizeOf a) (hle : sizeOf list ≤ bound) :
    ItemsFit bound (list.map make) := by
  intro i hitem
  obtain ⟨a, hmem, rfl⟩ := List.mem_map.mp hitem
  have := List.sizeOf_lt_of_mem hmem
  have := h a
  omega

/-- The items of an optional value fit a bound on its size. -/
theorem ItemsFit.toList {α : Type} [SizeOf α] {make : α → Item} {value : Option α}
    (h : ∀ a, (make a).size ≤ 1 + sizeOf a) (hle : sizeOf value ≤ bound) :
    ItemsFit bound (value.toList.map make) := by
  cases value with
  | none => exact .nil
  | some a =>
    have := h a
    simp only [Option.some.sizeOf_spec] at hle
    exact .cons (by omega) .nil

end

/-- The item of an expression is larger than it by one at most. -/
theorem Expression.size_item (expression : Expression) :
    expression.item.size ≤ 1 + sizeOf expression := by
  cases expression <;> simp [Expression.item, Identifier.item, Literal.item, Item.size]

/-- The item of an expression fits every bound above the expression. -/
theorem Expression.size_item_le (expression : Expression) {bound : Nat}
    (h : 1 + sizeOf expression ≤ bound) : expression.item.size ≤ bound :=
  Nat.le_trans expression.size_item h

/-- The item of a declarator is larger than it by one at most. -/
theorem Declarator.size_item (declarator : Declarator) :
    declarator.item.size ≤ 1 + sizeOf declarator := by
  cases declarator <;> simp [Declarator.item, Identifier.item, Item.size]

/-- The item of a parameter is larger than it by one at most. -/
theorem Parameter.size_item (parameter : Parameter) :
    parameter.item.size ≤ 1 + sizeOf parameter := by
  cases parameter <;> simp [Parameter.item, Identifier.item, Literal.item, Item.size]

/-- The items of a block are smaller than it. -/
theorem Block.fit_items (block : Block) : ItemsFit (sizeOf block - 1) block.items := by
  obtain ⟨statements, scope⟩ := block
  refine .append (.map (fun _ => ?_) ?_) (.cons ?_ .nil) <;> simp [Statement.item, Item.size]
  omega

/-- The items of a function are no larger than it. -/
theorem Function.fit_items (function : Function) : ItemsFit (sizeOf function) function.items := by
  obtain ⟨name, isLocal, parameters, body, placement⟩ := function
  refine ((ItemsFit.toList Expression.size_item ?_).append (.map Parameter.size_item ?_)).append
    (body.fit_items.mono ?_) <;> simp <;> omega

/-- The items of a table are no larger than it. -/
theorem Table.fit_items (table : Table) : ItemsFit (sizeOf table) table.items := by
  obtain ⟨fields, placement⟩ := table
  refine .map (fun _ => ?_) ?_ <;> simp [Item.size]
  omega

/-- The items of a clause are no larger than it. -/
theorem Clause.fit_items (clause : Clause) : ItemsFit (sizeOf clause) clause.items := by
  have hsize := Expression.size_item
  cases clause with
  | ifClause condition body =>
    refine .cons (condition.size_item_le ?_) (body.fit_items.mono ?_) <;> simp <;> omega
  | elseifClause condition body =>
    refine .cons (condition.size_item_le ?_) (body.fit_items.mono ?_) <;> simp <;> omega
  | elseClause body =>
    refine body.fit_items.mono ?_
    simp
    omega

/-- The items of an expression are no larger than it. -/
theorem Expression.fit_items (expression : Expression) :
    ItemsFit (sizeOf expression) expression.items := by
  have hsize := Expression.size_item
  cases expression with
  | identifier => exact .nil
  | literal => exact .nil
  | function inner => exact inner.fit_items.mono (by simp)
  | table inner => exact inner.fit_items.mono (by simp)
  | binary operator left right =>
    refine .cons (left.size_item_le ?_) (.cons (right.size_item_le ?_) .nil) <;> simp <;> omega
  | logical operator left right =>
    refine .cons (left.size_item_le ?_) (.cons (right.size_item_le ?_) .nil) <;> simp <;> omega
  | unary operator argument =>
    refine .cons (argument.size_item_le ?_) .nil
    simp
    omega
  | member base indexer name =>
    refine .cons (base.size_item_le ?_) (.cons ?_ .nil) <;>
      simp [Identifier.item, Item.size] <;> omega
  | index base key =>
    refine .cons (base.size_item_le ?_) (.cons (key.size_item_le ?_) .nil) <;> simp <;> omega
  | call base arguments =>
    refine .cons (base.size_item_le ?_) (.map hsize ?_) <;> simp <;> omega
  | tableCall base argument =>
    refine .cons (base.size_item_le ?_) (.cons ?_ .nil) <;> simp [Item.size] <;> omega
  | stringCall base argument =>
    refine .cons (base.size_item_le ?_) (.cons ?_ .nil) <;> simp [Literal.item, Item.size] <;> omega
  | make type fields =>
    refine .cons ?_ (.map (fun _ => ?_) ?_) <;> simp [Identifier.item, Item.size] <;> omega

/-- The items of a statement are no larger than it. -/
theorem Statement.fit_items (statement : Statement) :
    ItemsFit (sizeOf statement) statement.items := by
  have hsize := Expression.size_item
  cases statement with
  | labelStatement label =>
    refine .cons ?_ .nil
    simp [Identifier.item, Item.size]
  | breakStatement => exact .nil
  | gotoStatement label =>
    refine .cons ?_ .nil
    simp [Identifier.item, Item.size]
  | returnStatement arguments =>
    refine .map hsize ?_
    simp
    omega
  | ifStatement clauses =>
    refine .map (fun _ => ?_) ?_ <;> simp [Item.size]
    omega
  | whileStatement condition body =>
    refine .cons (condition.size_item_le ?_) (body.fit_items.mono ?_) <;> simp <;> omega
  | doStatement body =>
    refine body.fit_items.mono ?_
    simp
    omega
  | repeatStatement body condition =>
    obtain ⟨statements, scope⟩ := body
    refine .append (.map (fun _ => ?_) ?_) (.cons (condition.size_item_le ?_) (.cons ?_ .nil)) <;>
      simp [Statement.item, Item.size] <;> omega
  | localStatement names values =>
    refine .append (.map Declarator.size_item ?_) (.map hsize ?_) <;> simp <;> omega
  | assignment targets values =>
    refine .append (.map hsize ?_) (.map hsize ?_) <;> simp <;> omega
  | callStatement call =>
    refine .cons (call.size_item_le ?_) .nil
    simp
  | functionStatement inner => exact inner.fit_items.mono (by simp)
  | numericFor counter start stop step body =>
    refine .cons ?_ (.cons (start.size_item_le ?_) (.cons (stop.size_item_le ?_)
      (.append (.toList hsize ?_) (body.fit_items.mono ?_)))) <;>
      simp [Identifier.item, Item.size] <;> omega
  | genericFor names iterators body =>
    refine .append (.append (.map (fun _ => ?_) ?_) (.map hsize ?_)) (body.fit_items.mono ?_) <;>
      simp [Identifier.item, Item.size] <;> omega
  | structureDeclaration name fields =>
    refine .cons ?_ (.map (fun _ => ?_) ?_) <;> simp [Identifier.item, Item.size] <;> omega

/-- A node is larger than what it is made of. -/
theorem Node.size_items {node child : Node} (h : .node child ∈ node.items) :
    sizeOf child < sizeOf node := by
  have hfit : ItemsFit (sizeOf node - 1) node.items := by
    cases node with
    | chunk inner =>
      obtain ⟨body, comments, globals, placement⟩ := inner
      refine body.fit_items.mono ?_
      simp
      omega
    | statement inner => exact inner.fit_items.mono (by simp)
    | expression inner => exact inner.fit_items.mono (by simp)
    | identifier => exact .nil
    | literal => exact .nil
    | table inner => exact inner.fit_items.mono (by simp)
    | typedIdentifier inner =>
      obtain ⟨name, type, placement⟩ := inner
      refine .cons ?_ (.cons ?_ .nil) <;> simp [Identifier.item, Item.size] <;> omega
    | clause inner => exact inner.fit_items.mono (by simp)
    | tableField inner =>
      have hsize := Expression.size_item
      cases inner with
      | keyed key value =>
        refine .cons (key.size_item_le ?_) (.cons (value.size_item_le ?_) .nil) <;> simp <;> omega
      | named key value =>
        refine .cons ?_ (.cons (value.size_item_le ?_) .nil) <;>
          simp [Identifier.item, Item.size] <;> omega
      | positional value =>
        refine .cons (value.size_item_le ?_) .nil
        simp
    | structureEntry inner =>
      obtain ⟨key, type, placement⟩ := inner
      refine .cons ?_ (.cons ?_ .nil) <;> simp [Identifier.item, Item.size] <;> omega
    | makeField inner =>
      obtain ⟨key, value, placement⟩ := inner
      refine .cons ?_ (.cons (value.size_item_le ?_) .nil) <;>
        simp [Identifier.item, Item.size] <;> omega
    | comment => exact .nil
  have hsize : sizeOf child ≤ sizeOf node - 1 := hfit _ h
  have hpos : 0 < sizeOf node := by cases node <;> exact Nat.add_pos_left Nat.one_pos _
  omega

/-! ## Blocks of nodes -/

/-- The block that ends with a statement. -/
def Statement.block? : Statement → Option Block
  | .whileStatement _ body _ => some body
  | .doStatement body _ => some body
  | .repeatStatement body _ _ => some body
  | .functionStatement function => some function.body
  | .numericFor _ _ _ _ body _ => some body
  | .genericFor _ _ body _ => some body
  | _ => none

/-- The block that ends with a node. -/
def Node.block? : Node → Option Block
  | .chunk inner => some inner.body
  | .statement inner => inner.block?
  | .expression (.function inner) => some inner.body
  | .clause inner => some inner.body
  | _ => none

/-- The end of a block as an item. -/
def Block.ending (block : Block) : Item := .scope block.scope

/-- The item of an expression is a node. -/
theorem Expression.isSome_item (expression : Expression) : expression.item.node?.isSome = true := by
  cases expression <;> rfl

/-- The item of a declarator is a node. -/
theorem Declarator.isSome_item (declarator : Declarator) : declarator.item.node?.isSome = true := by
  cases declarator <;> rfl

/-- The item of a parameter is a node. -/
theorem Parameter.isSome_item (parameter : Parameter) : parameter.item.node?.isSome = true := by
  cases parameter <;> rfl

/-- Items that are made of nodes, and of the end of a block if there is one. -/
def Composed (items : List Item) (block : Option Block) : Prop :=
  ∃ parts : List Node, items = parts.map Item.node ++ block.toList.map Block.ending

section

variable {items : List Item} {item : Item} {block : Option Block}

/-- No items belong to no block. -/
theorem Composed.nil : Composed [] none := ⟨[], rfl⟩

/-- The scope of a block ends its items. -/
theorem Composed.ending (block : Block) : Composed [.scope block.scope] (some block) := ⟨[], rfl⟩

/-- A node may stand in front of the items of a block. -/
theorem Composed.cons (hitem : item.node?.isSome = true) (h : Composed items block) :
    Composed (item :: items) block := by
  obtain ⟨parts, rfl⟩ := h
  cases item with
  | node inner => exact ⟨inner :: parts, rfl⟩
  | _ => cases hitem

/-- Nodes may stand in front of the items of a block. -/
theorem Composed.map {α : Type} {make : α → Item} (list : List α)
    (hmake : ∀ a, (make a).node?.isSome = true) (h : Composed items block) :
    Composed (list.map make ++ items) block := by
  induction list with
  | nil => exact h
  | cons a rest ih => exact ih.cons (hmake a)

/-- A row of parts. -/
theorem Composed.row {α : Type} {make : α → Item} (list : List α)
    (hmake : ∀ a, (make a).node?.isSome = true) : Composed (list.map make) none :=
  List.append_nil (list.map make) ▸ Composed.nil.map list hmake

end

/-- The items of a block end with its scope. -/
theorem Block.composed (block : Block) : Composed block.items (some block) := by
  obtain ⟨statements, scope⟩ := block
  exact (Composed.ending (.mk statements scope)).map statements fun _ => rfl

/-- The items of a function end with the scope of its body. -/
theorem Function.composed (function : Function) : Composed function.items (some function.body) := by
  obtain ⟨name, isLocal, parameters, body, placement⟩ := function
  rw [Function.items, List.append_assoc]
  exact (body.composed.map parameters Parameter.isSome_item).map name.toList Expression.isSome_item

/-- The items of an expression end with the scope of its block, if it has one. -/
theorem Expression.composed (expression : Expression) :
    Composed expression.items (Node.expression expression).block? := by
  cases expression with
  | identifier => exact .nil
  | literal => exact .nil
  | function inner => exact inner.composed
  | table inner =>
    obtain ⟨fields, placement⟩ := inner
    exact .row fields fun _ => rfl
  | binary operator left right => exact .cons left.isSome_item (.cons right.isSome_item .nil)
  | logical operator left right => exact .cons left.isSome_item (.cons right.isSome_item .nil)
  | unary operator argument => exact .cons argument.isSome_item .nil
  | member base indexer name => exact .cons base.isSome_item (.cons rfl .nil)
  | index base key => exact .cons base.isSome_item (.cons key.isSome_item .nil)
  | call base arguments => exact .cons base.isSome_item (.row arguments Expression.isSome_item)
  | tableCall base argument => exact .cons base.isSome_item (.cons rfl .nil)
  | stringCall base argument => exact .cons base.isSome_item (.cons rfl .nil)
  | make type fields => exact .cons rfl (.row fields fun _ => rfl)

/-- The items of a statement end with the scope of its block, if it has one. -/
theorem Statement.composed (statement : Statement) : Composed statement.items statement.block? := by
  have hitem := Expression.isSome_item
  cases statement with
  | labelStatement label => exact .cons rfl .nil
  | breakStatement => exact .nil
  | gotoStatement label => exact .cons rfl .nil
  | returnStatement arguments => exact .row arguments hitem
  | ifStatement clauses => exact .row clauses fun _ => rfl
  | whileStatement condition body => exact .cons (hitem condition) body.composed
  | doStatement body => exact body.composed
  | repeatStatement body condition =>
    obtain ⟨statements, scope⟩ := body
    exact .map statements (fun _ => rfl) (.cons (hitem condition) (.ending (.mk statements scope)))
  | localStatement names values => exact .map names Declarator.isSome_item (.row values hitem)
  | assignment targets values => exact .map targets hitem (.row values hitem)
  | callStatement call => exact .cons (hitem call) .nil
  | functionStatement inner => exact inner.composed
  | numericFor counter start stop step body =>
    exact .cons rfl (.cons (hitem start) (.cons (hitem stop) (.map step.toList hitem body.composed)))
  | genericFor names iterators body =>
    rw [Statement.items, List.append_assoc]
    exact .map names (fun _ => rfl) (.map iterators hitem body.composed)
  | structureDeclaration name fields => exact .cons rfl (.row fields fun _ => rfl)

/-- The items of a node end with the scope of its block, if it has one. -/
theorem Node.composed (node : Node) : Composed node.items node.block? := by
  have hitem := Expression.isSome_item
  cases node with
  | chunk inner => exact inner.body.composed
  | statement inner => exact inner.composed
  | expression inner => exact inner.composed
  | identifier => exact .nil
  | literal => exact .nil
  | table inner => exact (Expression.table inner).composed
  | typedIdentifier => exact .cons rfl (.cons rfl .nil)
  | clause inner =>
    cases inner with
    | ifClause condition body => exact .cons (hitem condition) body.composed
    | elseifClause condition body => exact .cons (hitem condition) body.composed
    | elseClause body => exact body.composed
  | tableField inner =>
    cases inner with
    | keyed key value => exact .cons (hitem key) (.cons (hitem value) .nil)
    | named key value => exact .cons rfl (.cons (hitem value) .nil)
    | positional value => exact .cons (hitem value) .nil
  | structureEntry => exact .cons rfl (.cons rfl .nil)
  | makeField inner =>
    obtain ⟨key, value, placement⟩ := inner
    exact .cons rfl (.cons (hitem value) .nil)
  | comment => exact .nil

/-- A node is made of its children and, if a block ends with it, the end of that block behind them. -/
theorem Node.items_eq (node : Node) :
    node.items = node.children.map Item.node ++ node.block?.toList.map Block.ending := by
  obtain ⟨parts, hitems⟩ := node.composed
  have hnodes : (parts.map Item.node).filterMap Item.node? = parts := by
    rw [List.filterMap_map]
    exact List.filterMap_some
  have hending : (node.block?.toList.map Block.ending).filterMap Item.node? = [] := by
    cases node.block? <;> rfl
  have hchildren : node.children = parts := by
    rw [Node.children, hitems, List.filterMap_append, hnodes, hending, List.append_nil]
  rw [hchildren, hitems]

/-- The children of a node are the nodes among its items. -/
theorem Node.mem_children {node child : Node} : child ∈ node.children ↔ .node child ∈ node.items := by
  rw [Node.items_eq, List.mem_append]
  constructor
  · exact fun hmem => .inl (List.mem_map_of_mem hmem)
  · rintro (hmem | hmem)
    · obtain ⟨other, hother, heq⟩ := List.mem_map.mp hmem
      exact Item.node.inj heq ▸ hother
    · obtain ⟨block, -, heq⟩ := List.mem_map.mp hmem
      cases heq

/-! ## All that is in a node -/

/-- All nodes in a node and itself, each behind its parts. -/
def Node.postorder (node : Node) : List Node :=
  node.children.attach.flatMap (fun child => child.1.postorder) ++ [node]
termination_by sizeOf node
decreasing_by exact Node.size_items (Node.mem_children.mp child.2)

/-- The nodes in a node are those in its children, and then the node itself. -/
theorem Node.postorder_eq (node : Node) :
    node.postorder = node.children.flatMap Node.postorder ++ [node] := by
  rw [Node.postorder, ← List.flatMap_map, List.attach_map_subtype_val]

/-- A node is in another if it is the other or in one of its children. -/
theorem Node.mem_postorder {node inner : Node} :
    inner ∈ node.postorder ↔ (∃ child ∈ node.children, inner ∈ child.postorder) ∨ inner = node := by
  rw [Node.postorder_eq, List.mem_append, List.mem_singleton, List.mem_flatMap]

/-- What holds of a node and passes from every node to its children holds of all nodes in it. -/
theorem Node.forall_postorder {good : Node → Prop} {node : Node}
    (hstep : ∀ outer, good outer → ∀ child ∈ outer.children, good child) (h : good node) :
    ∀ inner ∈ node.postorder, good inner := by
  intro inner hinner
  rcases Node.mem_postorder.mp hinner with ⟨child, hmem, hinner⟩ | rfl
  · exact Node.forall_postorder hstep (hstep node h child hmem) inner hinner
  · exact h
termination_by sizeOf node
decreasing_by exact Node.size_items (Node.mem_children.mp ‹_›)

/-- The names that were declared in a block, if names were resolved. -/
def Block.names (block : Block) : Option (List String) :=
  block.scope.map fun bindings => bindings.map Binding.name

/-- The names that were declared in the block of a node, if it has one and names were resolved. -/
def Node.names? (node : Node) : Option (List String) := node.block?.bind Block.names

/-- The names that were declared in the blocks in a node, each block behind those in it. -/
def Node.scopes (node : Node) : List (List String) := node.postorder.filterMap Node.names?

/-- The names that were declared in the blocks in an item. -/
def Item.scopes : Item → List (List String)
  | .node inner => inner.scopes
  | .scope bindings => (bindings.map fun bindings => bindings.map Binding.name).toList
  | .opened => []

/-- The names declared in a node are those declared in its items. -/
theorem Node.scopes_eq (node : Node) : node.scopes = node.items.flatMap Item.scopes := by
  have hown : [node].filterMap Node.names? =
      (node.block?.toList.map Block.ending).flatMap Item.scopes := by
    rw [List.filterMap_cons, List.filterMap_nil]
    cases hblock : node.block? with
    | none => rw [Node.names?, hblock]; rfl
    | some block =>
      rw [Node.names?, hblock, Option.bind_some, Option.toList_some, List.map_singleton,
        List.flatMap_singleton]
      cases hscope : block.scope <;> simp [Block.names, Block.ending, Item.scopes, hscope]
  rw [Node.scopes, Node.postorder_eq, List.filterMap_append, hown, List.filterMap_flatMap,
    Node.items_eq, List.flatMap_append, @List.flatMap_map _ _ _ Item.node]
  rfl

/-! ## Names as they are read -/

/-- A name before it is known to be local. -/
def Identifier.asRead (identifier : Identifier) : Identifier := { identifier with isLocal := false }

/-- A node as it is told of. Names, also those with a type, are told of before they are resolved. -/
def Node.asRead : Node → Node
  | .identifier name => .identifier name.asRead
  | .typedIdentifier declared => .typedIdentifier { declared with name := declared.name.asRead }
  | node => node

/-- An item with names as they are read. What is inside a name with a type is not looked at. -/
def Item.asRead : Item → Item
  | .node inner => .node inner.asRead
  | item => item

/-- What is told of the nodes in an item. -/
def Item.told : Item → List Node
  | .node inner => inner.postorder.map Node.asRead
  | _ => []

/-- A node as it is read stands at the same place. -/
@[simp] theorem Node.placement_asRead (node : Node) : node.asRead.placement = node.placement := by
  cases node <;> rfl

/-- What is told of a node is what is told of its items, and then the node itself. -/
theorem Item.told_node (node : Node) :
    (Item.node node).told = node.items.flatMap Item.told ++ [node.asRead] := by
  have hending : (node.block?.toList.map Block.ending).flatMap Item.told = [] := by
    cases node.block? <;> rfl
  rw [Item.told, Node.postorder_eq, List.map_append, List.map_flatMap, Node.items_eq,
    List.flatMap_append, hending, List.append_nil, List.flatMap_map]
  rfl

/-- What is told of a name does not depend on whether it is local. -/
theorem Item.told_asRead (item : Item) : item.asRead.told = item.told := by
  cases item with
  | node inner =>
    cases inner with
    | identifier name => exact (told_node _).trans (told_node (.identifier name)).symm
    | typedIdentifier declared =>
      refine (told_node _).trans (Eq.trans ?_ (told_node _).symm)
      show ((Item.node _).told ++ _) ++ _ = ((Item.node _).told ++ _) ++ _
      rw [told_node, told_node]
      rfl
    | _ => rfl
  | _ => rfl

/-- No block is in a name. -/
theorem Item.scopes_asRead (item : Item) : item.asRead.scopes = item.scopes := by
  cases item with
  | node inner =>
    cases inner with
    | identifier name => exact (Node.scopes_eq _).trans (Node.scopes_eq (.identifier name)).symm
    | typedIdentifier declared =>
      refine (Node.scopes_eq _).trans (Eq.trans ?_ (Node.scopes_eq _).symm)
      show Node.scopes _ ++ _ = Node.scopes _ ++ _
      rw [Node.scopes_eq, Node.scopes_eq]
      rfl
    | _ => rfl
  | _ => rfl

/-! ## Rows that read alike -/

/-- Whether two rows of items read alike. -/
def ReadAlike (items others : List Item) : Prop := items.map Item.asRead = others.map Item.asRead

namespace ReadAlike

variable {items items' others others' : List Item}

/-- Items are read like themselves. -/
theorem refl (items : List Item) : ReadAlike items items := rfl

/-- Items put together are read alike if their parts are. -/
theorem append (h : ReadAlike items items') (h' : ReadAlike others others') :
    ReadAlike (items ++ others) (items' ++ others') := by
  rw [ReadAlike, List.map_append, List.map_append, h, h']

/-- Where one row has a node the other has one too. -/
theorem node (h : ReadAlike items others) {inner : Node} (hmem : .node inner ∈ others) :
    ∃ other, .node other ∈ items := by
  have hread : (Item.node inner).asRead ∈ items.map Item.asRead := h ▸ List.mem_map_of_mem hmem
  obtain ⟨item, hitem, heq⟩ := List.mem_map.mp hread
  cases item with
  | node other => exact ⟨other, hitem⟩
  | _ => cases heq

/-- What is the same of an item and of the item as read is the same of items read alike. -/
theorem flatMap {ω : Type} (h : ReadAlike items items') {what : Item → List ω}
    (hwhat : ∀ item : Item, what item.asRead = what item) :
    items.flatMap what = items'.flatMap what := by
  rw [← funext hwhat, ← List.flatMap_map, h, List.flatMap_map]

end ReadAlike

end LuaSyntax
