import LuaSyntax.Proofs.Grammar.Told.Nodes
import LuaSyntax.Tree.Visitor

/-!
# A walk and an observer come to the same leaves

A visitor goes over a tree when it is there, an observer is told of it while it comes to be. Neither follows
the other's order: values are walked over before the names that are declared with them, and are told of behind
them. But the names and literals that a walk comes to, counted with how often it does, are those of the tree
in post-order, and so are those that an observer is told of.
-/

namespace LuaSyntax

/-! ## Leaves -/

/-- A name or a literal, as it can be told from others. Whether a name is local is not part of it, since a name
is told of before that is known. -/
inductive Leaf where
  | name (name : String) (placement : Placement)
  | literal (literal : Literal)
  deriving DecidableEq

/-- A name as a leaf. -/
def Identifier.leaf (identifier : Identifier) : Leaf := .name identifier.name identifier.placement

/-- A visitor that only keeps the names and the literals it comes to. -/
def leafVisitor : Visitor Leaf where
  identifier name := [name.leaf]
  literal leaf := [.literal leaf]

/-- The leaf that a node is, in whichever role. -/
def Node.leaf? : Node → Option Leaf
  | .identifier name => some name.leaf
  | .literal leaf => some (.literal leaf)
  | .expression (.identifier name) => some name.leaf
  | .expression (.literal leaf) => some (.literal leaf)
  | _ => none

/-- The leaf that an event tells of. -/
def Event.leaf? : Event → Option Leaf
  | .completed node => node.leaf?
  | _ => none

/-- The leaves of a node in the order in which they are written. -/
def Node.leaves (node : Node) : List Leaf := node.postorder.filterMap Node.leaf?

/-- The leaves of an item. -/
def Item.leaves : Item → List Leaf
  | .node inner => inner.leaves
  | _ => []

/-- The leaves of a node are those of its items, and itself if it is one. -/
theorem Node.leaves_eq (node : Node) :
    node.leaves = node.items.flatMap Item.leaves ++ node.leaf?.toList := by
  have hending : (node.block?.toList.map Block.ending).flatMap Item.leaves = [] := by
    cases node.block? <;> rfl
  have hself : [node].filterMap Node.leaf? = node.leaf?.toList := by
    cases h : node.leaf? <;> simp [h]
  rw [Node.leaves, Node.postorder_eq, List.filterMap_append, List.filterMap_flatMap, hself, Node.items_eq,
    List.flatMap_append, hending, List.append_nil, @List.flatMap_map _ _ _ Item.node]
  rfl

/-! ## Steps of a walk -/

/-- What was seen are the leaves of some items, whatever their order. -/
def Reaches (seen : List Leaf) (items : List Item) : Prop := seen.Perm (items.flatMap Item.leaves)

namespace Reaches

variable {seen more : List Leaf} {items others : List Item} {item : Item}

/-- Nothing reaches nothing. -/
theorem nil : Reaches [] [] := .refl _

/-- What is reached one after another is reached together. -/
theorem append (h : Reaches seen items) (h' : Reaches more others) :
    Reaches (seen ++ more) (items ++ others) := by
  rw [Reaches, List.flatMap_append]
  exact List.Perm.append h h'

/-- The leaves of an item and of those behind it are reached together. -/
theorem cons (h : seen.Perm item.leaves) (h' : Reaches more items) : Reaches (seen ++ more) (item :: items) :=
  List.Perm.append h h'

/-- The leaves of an item are reached if they are visited in any order. -/
theorem single (h : seen.Perm item.leaves) : Reaches seen [item] := by
  rw [Reaches, List.flatMap_singleton]
  exact h

/-- Nothing is to be seen at the end of a block. -/
theorem ended (h : Reaches seen items) (scope : Option (List Binding)) :
    Reaches seen (items ++ [.scope scope]) :=
  List.append_nil seen ▸ h.append (.single (.refl _))

/-- It makes no difference in which order the items are gone through. -/
theorem reorder (h : Reaches seen items) (horder : items.Perm others) : Reaches seen others :=
  h.trans (horder.flatMap_right _)

/-- Items made of the members of a list, each of which was seen. -/
theorem map {α : Type} {see : α → List Leaf} {make : α → Item} (h : ∀ a, (see a).Perm (make a).leaves)
    (list : List α) : Reaches (list.flatMap see) (list.map make) := by
  induction list with
  | nil => exact nil
  | cons a rest ih => exact cons (h a) ih

/-- The leaves of a node that is no leaf are those of what it is made of. -/
theorem node {inner : Node} (h : Reaches seen inner.items) (hinner : inner.leaf? = none) :
    seen.Perm (Item.node inner).leaves := by
  rw [Item.leaves, Node.leaves_eq, hinner, Option.toList_none, List.append_nil]
  exact h

end Reaches

open Reaches

/-- A name is its own leaf. -/
theorem Identifier.reached (identifier : Identifier) : [identifier.leaf].Perm identifier.item.leaves := by
  rw [Identifier.item, Item.leaves, Node.leaves_eq]
  exact .refl _

/-- A literal is its own leaf. -/
theorem Literal.reached (leaf : Literal) : [Leaf.literal leaf].Perm leaf.item.leaves := by
  rw [Literal.item, Item.leaves, Node.leaves_eq]
  exact .refl _

/-- The leaves of a name with a type are the name and its type. -/
theorem TypedIdentifier.reached (typed : TypedIdentifier) :
    (leafVisitor.ofTyped typed).Perm (Item.node (.typedIdentifier typed)).leaves :=
  node (cons typed.name.reached (single typed.type.reached)) rfl

/-- The leaves of a declared name are visited. -/
theorem Declarator.reached (declarator : Declarator) :
    (leafVisitor.ofDeclarator declarator).Perm declarator.item.leaves := by
  cases declarator with
  | plain identifier => exact identifier.reached
  | typed declared => exact declared.reached

/-- The leaves of a parameter are visited. -/
theorem Parameter.reached (parameter : Parameter) :
    (leafVisitor.ofParameter parameter).Perm parameter.item.leaves := by
  cases parameter with
  | plain identifier => exact identifier.reached
  | typed declared => exact declared.reached
  | vararg dots => exact dots.reached

/-- The leaves of an entry of a structure are its name and its type. -/
theorem StructureEntry.reached (entry : StructureEntry) :
    (leafVisitor.ofEntry entry).Perm (Item.node (.structureEntry entry)).leaves :=
  node (cons entry.key.reached (single entry.type.reached)) rfl

/-! ## Walks -/

mutual

/-- All leaves of an expression are visited, each once. -/
theorem Expression.reached : (expression : Expression) →
    (leafVisitor.ofExpression expression).Perm expression.item.leaves
  | .identifier name => name.reached
  | .literal leaf => leaf.reached
  | .function inner => node inner.reached rfl
  | .table inner => node inner.reached rfl
  | .binary _ left right _ => node (cons left.reached (single right.reached)) rfl
  | .logical _ left right _ => node (cons left.reached (single right.reached)) rfl
  | .unary _ argument _ => node (single argument.reached) rfl
  | .member base _ name _ => node (cons base.reached (single name.reached)) rfl
  | .index base key _ => node (cons base.reached (single key.reached)) rfl
  | .call base arguments _ => node (cons base.reached (expressions_reached arguments)) rfl
  | .tableCall base argument _ => node (cons base.reached (single (node argument.reached rfl))) rfl
  | .stringCall base argument _ => node (cons base.reached (single argument.reached)) rfl
  | .make type fields _ => node (cons type.reached (makeFields_reached fields)) rfl

/-- All leaves of expressions are visited, each once. -/
theorem expressions_reached : (expressions : List Expression) →
    Reaches (leafVisitor.ofExpressions expressions) (expressions.map Expression.item)
  | [] => nil
  | expression :: rest => cons expression.reached (expressions_reached rest)

/-- All leaves of an expression that may be missing are visited. -/
theorem expression?_reached : (expression : Option Expression) →
    Reaches (leafVisitor.ofExpression? expression) (expression.toList.map Expression.item)
  | none => nil
  | some expression => single expression.reached

/-- All leaves of a table are visited, each once. -/
theorem Table.reached : (table : Table) → Reaches (leafVisitor.ofTable table) table.items
  | .mk fields _ => tableFields_reached fields

/-- All leaves of a field are visited, each once. -/
theorem TableField.reached : (field : TableField) →
    (leafVisitor.ofTableField field).Perm (Item.node (.tableField field)).leaves
  | .keyed key value _ => node (cons key.reached (single value.reached)) rfl
  | .named key value _ => node (cons key.reached (single value.reached)) rfl
  | .positional value _ => node (single value.reached) rfl

theorem tableFields_reached : (fields : List TableField) →
    Reaches (leafVisitor.ofTableFields fields) (fields.map fun field => .node (.tableField field))
  | [] => nil
  | field :: rest => cons field.reached (tableFields_reached rest)

/-- All leaves of a field of a structure are visited, each once. -/
theorem MakeField.reached : (field : MakeField) →
    (leafVisitor.ofMakeField field).Perm (Item.node (.makeField field)).leaves
  | .mk key value _ => node (cons key.reached (single value.reached)) rfl

theorem makeFields_reached : (fields : List MakeField) →
    Reaches (leafVisitor.ofMakeFields fields) (fields.map fun field => .node (.makeField field))
  | [] => nil
  | field :: rest => cons field.reached (makeFields_reached rest)

/-- All leaves of a function are visited, its name among them. -/
theorem Function.reached : (function : Function) → Reaches (leafVisitor.ofFunction function) function.items
  | .mk name _ parameters body _ =>
    ((expression?_reached name).append (map Parameter.reached parameters)).append body.reached

/-- All leaves of a block are visited, each once. -/
theorem Block.reached : (block : Block) → Reaches (leafVisitor.ofBlock block) block.items
  | .mk statements scope => (statements_reached statements).ended scope

/-- All leaves of a clause are visited, each once. -/
theorem Clause.reached : (clause : Clause) →
    (leafVisitor.ofClause clause).Perm (Item.node (.clause clause)).leaves
  | .ifClause condition body _ => node (cons condition.reached body.reached) rfl
  | .elseifClause condition body _ => node (cons condition.reached body.reached) rfl
  | .elseClause body _ => node body.reached rfl

theorem clauses_reached : (clauses : List Clause) →
    Reaches (leafVisitor.ofClauses clauses) (clauses.map fun clause => .node (.clause clause))
  | [] => nil
  | clause :: rest => cons clause.reached (clauses_reached rest)

-- Only here does a walk go another way than the items are written.
/-- All leaves of a statement are visited, each once. -/
theorem Statement.reached : (statement : Statement) →
    (leafVisitor.ofStatement statement).Perm statement.item.leaves
  | .labelStatement label _ => node (single label.reached) rfl
  | .breakStatement _ => node nil rfl
  | .gotoStatement label _ => node (single label.reached) rfl
  | .returnStatement arguments _ => node (expressions_reached arguments) rfl
  | .ifStatement clauses _ => node (clauses_reached clauses) rfl
  | .whileStatement condition body _ => node (cons condition.reached body.reached) rfl
  | .doStatement body _ => node body.reached rfl
  | .repeatStatement (.mk statements scope) condition _ =>
    node ((statements_reached statements).append ((single condition.reached).ended scope)) rfl
  | .localStatement names values _ =>
    node (((expressions_reached values).append (map Declarator.reached names)).reorder
      List.perm_append_comm) rfl
  | .assignment targets values _ => node ((expressions_reached targets).append (expressions_reached values)) rfl
  | .callStatement call _ => node (single call.reached) rfl
  | .functionStatement function => node function.reached rfl
  | .numericFor counter start stop step body _ =>
    have header := ((single start.reached).append (single stop.reached)).append (expression?_reached step)
    node (((header.append (single counter.reached)).append body.reached).reorder
      (List.perm_append_comm.append_right _)) rfl
  | .genericFor names iterators body _ =>
    have header := (expressions_reached iterators).append (map Identifier.reached names)
    node ((header.append body.reached).reorder (List.perm_append_comm.append_right _)) rfl
  | .structureDeclaration name fields _ => node (cons name.reached (map StructureEntry.reached fields)) rfl

/-- All leaves of statements are visited, each once. -/
theorem statements_reached : (statements : List Statement) →
    Reaches (leafVisitor.ofStatements statements) (statements.map Statement.item)
  | [] => nil
  | statement :: rest => cons statement.reached (statements_reached rest)

end

/-- A walk over a chunk comes to each of its leaves once. -/
theorem Chunk.reached (chunk : Chunk) : (leafVisitor.ofChunk chunk).Perm (Node.chunk chunk).leaves :=
  @node _ (.chunk chunk) chunk.body.reached rfl

/-! ## Observers -/

/-- What is later known of a name does not change its leaf. -/
@[simp] theorem Node.leaf?_asRead (node : Node) : node.asRead.leaf? = node.leaf? := by
  cases node <;> rfl

/-- Leaves are parts of the tree. -/
theorem Event.leaf?_eq (event : Event) : event.leaf? = event.part?.bind Node.leaf? := by
  cases event with
  | completed node => cases node <;> rfl
  | _ => rfl

/-- An observer of an accepted feed is told of the leaves of the chunk in post-order. -/
theorem Grammar.leaves_of_run {options : ParseOptions} {source : Text} {feed : Feed} {chunk : Chunk}
    (h : (Grammar.run options source feed).result = .ok chunk) :
    (Grammar.run options source feed).events.filterMap Event.leaf? = (Node.chunk chunk).leaves := by
  rw [funext Event.leaf?_eq, ← List.filterMap_filterMap, (Grammar.told_of_run h).1, List.filterMap_map]
  exact congrArg (List.filterMap · _) (funext Node.leaf?_asRead)

/-- The names and literals that a walk over an accepted chunk comes to are those of the tree, each as often as
it stands there, and are those that an observer of the same source is told of. -/
theorem walk_agrees_with_events {options : ParseOptions} {source : Text} {chunk : Chunk}
    (h : parse options source = .ok chunk) :
    (leafVisitor.ofChunk chunk).Perm (Node.chunk chunk).leaves ∧
      (leafVisitor.ofChunk chunk).Perm
        ((parseWithEvents options source).events.filterMap Event.leaf?) :=
  have hevents := @Grammar.leaves_of_run options source (Lexer.feed options source) chunk h
  ⟨chunk.reached, chunk.reached.trans (.of_eq hevents.symm)⟩

/-- A walk comes to the values of a declaration before it comes to the names. -/
theorem walk_agrees_on_declaration :
    ∃ chunk, parse { recordRanges := true } "local x, y = f's', x".toList = .ok chunk ∧
      (leafVisitor.ofChunk chunk).Perm
        [.name "x" ⟨none, some ⟨6, 7⟩⟩, .name "y" ⟨none, some ⟨9, 10⟩⟩,
          .name "f" ⟨none, some ⟨13, 14⟩⟩,
          .literal { value := .string "s", raw := "'s'", placement := ⟨none, some ⟨14, 17⟩⟩ },
          .name "x" ⟨none, some ⟨19, 20⟩⟩] := by
  have haccepted : (parse { recordRanges := true } "local x, y = f's', x".toList).toBool = true := by
    decide +kernel
  cases hparse : parse { recordRanges := true } "local x, y = f's', x".toList with
  | error error =>
    rw [hparse] at haccepted
    cases haccepted
  | ok chunk =>
    refine ⟨chunk, rfl, (walk_agrees_with_events hparse).2.trans (.of_eq ?_)⟩
    decide +kernel

end LuaSyntax
