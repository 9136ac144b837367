import LuaSyntax.Proofs.Jumps.Sites
import LuaSyntax.Proofs.Tree.Items

/-!
# Gotos, visible labels and functions

A `goto` needs a label of its name in its own block or in a block around that, as far as the function
goes; the label may stand before the `goto` or behind it. `Chunk.Sees` says of a block of a chunk which
labels those are, and `Chunk.Resolved` that every `goto` of a chunk has one.

Reading a chunk goes the other way, from the inside out: when a block closes, the gotos in it that have
found no label are those that no block in it has a label for. `Statement.Strays` follows that.

The nodes of a chunk are found by going from each node to what it is made of, and the blocks of a chunk by
going from each block to the blocks and the functions in it. In a well-formed chunk both find the same
functions. There the name of a function has no function in it, so it may be passed over.
-/

namespace LuaSyntax

/-! ## Visible labels -/

/-- The blocks of a chunk, each with the labels in it and in the blocks around it in the same
function. -/
inductive Chunk.Sees (chunk : Chunk) : List String → Block → Prop where
  | chunk : Sees chunk (labelsOf chunk.body.statements) chunk.body
  | nested {visible : List String} {isRepeat : Bool} {block body : Block} {statement : Statement} :
      Sees chunk visible block → statement ∈ block.statements → (body, isRepeat) ∈ statement.blocks →
      Sees chunk (labelsOf body.statements ++ visible) body
  | function {visible : List String} {block : Block} {statement : Statement}
      {expression : Expression} {function : Function} : Sees chunk visible block →
      statement ∈ block.statements → expression ∈ statement.parts → expression.Holds function →
      Sees chunk (labelsOf function.body.statements) function.body

/-- Whether a chunk has a certain `goto` with no label that is visible from it. -/
def Chunk.Unresolved (chunk : Chunk) (label : Identifier) (placement : Placement) : Prop :=
  ∃ visible block, chunk.Sees visible block ∧
    .gotoStatement label placement ∈ block.statements ∧ label.name ∉ visible

/-- Whether every `goto` of a chunk has a label that is visible from it. -/
def Chunk.Resolved (chunk : Chunk) : Prop :=
  ∀ visible block label placement, chunk.Sees visible block →
    .gotoStatement label placement ∈ block.statements → label.name ∈ visible

/-- A chunk with an unresolved jump is not resolved. -/
theorem Chunk.Unresolved.not_resolved {chunk : Chunk} {label : Identifier} {placement : Placement}
    (h : chunk.Unresolved label placement) : ¬ chunk.Resolved := by
  obtain ⟨visible, block, hsees, hmem, hname⟩ := h
  exact fun hresolved => hname (hresolved visible block label placement hsees hmem)

/-! ## Gotos that leave a block -/

/-- Whether a `goto` is in a statement, and no block around it inside the statement has its label. -/
inductive Statement.Strays (label : Identifier) (placement : Placement) : Statement → Prop where
  | goto : Strays label placement (.gotoStatement label placement)
  | nested {isRepeat : Bool} {body : Block} {statement inner : Statement} :
      (body, isRepeat) ∈ statement.blocks → inner ∈ body.statements → Strays label placement inner →
      label.name ∉ labelsOf body.statements → Strays label placement statement

/-- Whether a `goto` is in a block, and neither the block nor a block around the `goto` inside it has its
label. -/
def Block.Strays (label : Identifier) (placement : Placement) (block : Block) : Prop :=
  (∃ statement ∈ block.statements, statement.Strays label placement) ∧
    label.name ∉ labelsOf block.statements

variable {chunk : Chunk} {visible : List String} {block body : Block} {isRepeat : Bool}
  {statement : Statement} {label : Identifier} {placement : Placement} {name : String}

/-- What strays out of all blocks of a function has no label that it sees. -/
theorem Statement.Strays.unresolved (h : statement.Strays label placement)
    (hsees : chunk.Sees visible block) (hmem : statement ∈ block.statements)
    (hname : label.name ∉ visible) : chunk.Unresolved label placement := by
  induction h generalizing visible block with
  | goto => exact ⟨visible, block, hsees, hmem, hname⟩
  | nested hbody hinner _ hlabel ih =>
    refine ih (hsees.nested hmem hbody) hinner fun hlabels => ?_
    exact (List.mem_append.mp hlabels).elim hlabel hname

/-- A `goto` that strays from the body of a function has no label that it sees. -/
theorem Block.Strays.unresolved (h : body.Strays label placement)
    (hsees : chunk.Sees (labelsOf body.statements) body) : chunk.Unresolved label placement := by
  obtain ⟨⟨statement, hmem, hstrays⟩, hname⟩ := h
  exact hstrays.unresolved hsees hmem hname

/-! ## Well-formed chunks -/

/-- What escapes from a block of a statement escapes from the statement. -/
theorem Statement.escaping_of_block (hmem : (body, isRepeat) ∈ statement.blocks)
    (hname : name ∈ body.escaping) : name ∈ statement.escaping := by
  cases statement with
  | ifStatement clauses =>
    obtain ⟨clause, hclause, heq⟩ := List.mem_map.mp hmem
    obtain ⟨before, after, rfl⟩ := List.append_of_mem hclause
    rw [Statement.escaping, escapingClauses_append, escapingClauses]
    refine List.mem_append_right _ (List.mem_append_left _ ?_)
    cases heq
    cases clause <;> exact hname
  | whileStatement => cases List.mem_singleton.mp hmem; exact hname
  | doStatement => cases List.mem_singleton.mp hmem; exact hname
  | repeatStatement => cases List.mem_singleton.mp hmem; exact hname
  | numericFor => cases List.mem_singleton.mp hmem; exact hname
  | genericFor => cases List.mem_singleton.mp hmem; exact hname
  | _ => cases hmem

/-- What escapes from a statement of a block is for a label of the block or escapes from the block. -/
theorem Block.label_or_escaping (hmem : statement ∈ block.statements)
    (hname : name ∈ statement.escaping) :
    name ∈ labelsOf block.statements ∨ name ∈ block.escaping := by
  by_cases hlabel : name ∈ labelsOf block.statements
  · exact .inl hlabel
  · exact .inr (mem_escaping_block.mpr ⟨⟨statement, hmem, hname⟩, hlabel⟩)

/-- The statements of a well-formed block are well-formed, each where it stands. -/
theorem Block.WellFormed.of_mem {situation : Situation}
    (h : block.WellFormed situation isRepeat) (hmem : statement ∈ block.statements) :
    ∃ inner : Situation, inner.toSurroundings = situation.toSurroundings ∧
      statement.WellFormed inner := by
  obtain ⟨-, -, hstatements⟩ := Block.wellFormed_iff.mp h
  obtain ⟨before, after, heq⟩ := List.append_of_mem hmem
  rw [heq] at hstatements
  exact ⟨_, Situation.toSurroundings_after, wellFormed_after hstatements⟩

/-- A block of a well-formed chunk is well-formed where it stands. -/
theorem Chunk.Sees.wellFormed {dialect : Dialect} {checksTargets : Bool} (hsees : chunk.Sees visible block)
    (h : chunk.WellFormed dialect checksTargets) :
    ∃ situation : Situation, (situation.dialect = dialect ∧ situation.checksTargets = checksTargets) ∧
      ∃ isRepeat, block.WellFormed situation isRepeat := by
  induction hsees with
  | chunk => exact ⟨_, ⟨rfl, rfl⟩, _, h.1⟩
  | nested _ hmem hbody ih =>
    obtain ⟨situation, hsituation, _, hblock⟩ := ih
    obtain ⟨inner, hinner, hstatement⟩ := hblock.of_mem hmem
    have hinside : inner.dialect = dialect ∧ inner.checksTargets = checksTargets := by
      rw [hinner]
      exact hsituation
    rcases hstatement.block hbody with hbody | hbody
    · exact ⟨inner, hinside, _, hbody⟩
    · exact ⟨inner.loop, hinside, _, hbody⟩
  | @function _ _ _ _ function _ hmem hpart hholds ih =>
    obtain ⟨situation, ⟨hdialect, hchecks⟩, _, hblock⟩ := ih
    obtain ⟨inner, hinner, hstatement⟩ := hblock.of_mem hmem
    have hfunction := hstatement.function hpart hholds
    rw [hinner] at hfunction
    cases function with
    | mk _ _ _ body =>
      obtain ⟨-, hbody, -⟩ := hfunction
      refine ⟨_, ?_, _, hbody⟩
      exact ⟨hdialect, hchecks⟩

/-- In a chunk in which every `goto` must have a visible label, a jump that escapes from a statement is
for a label that is visible there. -/
theorem Chunk.Sees.escaping {dialect : Dialect} (hsees : chunk.Sees visible block)
    (h : chunk.WellFormed dialect true) (hlabels : dialect.has .labels = true) :
    ∀ statement ∈ block.statements, ∀ name ∈ statement.escaping, name ∈ visible := by
  induction hsees with
  | chunk =>
    intro statement hmem name hname
    rcases Block.label_or_escaping hmem hname with hlabel | hescapes
    · exact hlabel
    · rw [h.2 hlabels rfl] at hescapes
      cases hescapes
  | nested _ hmem hbody ih =>
    refine fun statement' hmem' name hname => List.mem_append.mpr ?_
    exact (Block.label_or_escaping hmem' hname).imp_right fun hescapes =>
      ih _ hmem name (Statement.escaping_of_block hbody hescapes)
  | @function _ _ _ _ function hsees hmem hpart hholds _ =>
    obtain ⟨situation, ⟨hdialect, hchecks⟩, _, hblock⟩ := hsees.wellFormed h
    obtain ⟨inner, hinner, hstatement⟩ := hblock.of_mem hmem
    have hfunction := hstatement.function hpart hholds
    rw [hinner] at hfunction
    cases function with
    | mk _ _ _ body =>
      obtain ⟨-, -, hnone⟩ := hfunction
      rw [hdialect, hchecks] at hnone
      intro statement hmem name hname
      rcases Block.label_or_escaping hmem hname with hlabel | hescapes
      · exact hlabel
      · rw [Function.body, hnone hlabels rfl] at hescapes
        cases hescapes

/-- In a well-formed chunk of a dialect with labels every jump is resolved. -/
theorem Chunk.WellFormed.resolved {dialect : Dialect} (h : chunk.WellFormed dialect true)
    (hlabels : dialect.has .labels = true) : chunk.Resolved :=
  fun _ _ label _ hsees hmem => hsees.escaping h hlabels _ hmem label.name List.mem_cons_self

/-! ## The functions of a chunk -/

/-- Whether the functions that an expression holds have no names, and their bodies stand in a chunk. -/
def Chunk.Reads (chunk : Chunk) (expression : Expression) : Prop :=
  ∀ function, expression.Holds function →
    function.IsAnonymous ∧ chunk.Sees (labelsOf function.body.statements) function.body

/-- Whether what a node holds stands in a chunk. -/
def Chunk.Reaches (chunk : Chunk) : Node → Prop
  | .chunk inner => inner = chunk
  | .statement inner => ∃ visible block, chunk.Sees visible block ∧ inner ∈ block.statements
  | .expression inner => chunk.Reads inner
  | .table inner => ∀ part ∈ inner.fields.flatMap TableField.parts, chunk.Reads part
  | .clause inner =>
    (∀ condition ∈ inner.condition?, chunk.Reads condition) ∧ ∃ visible, chunk.Sees visible inner.body
  | .tableField inner => ∀ part ∈ inner.parts, chunk.Reads part
  | .makeField inner => chunk.Reads inner.value
  | _ => True

/-- Whether what stands at an item, if it is a node, stands in a chunk. -/
def Chunk.ReachesItem (chunk : Chunk) (item : Item) : Prop := ∀ node ∈ item.node?, chunk.Reaches node

variable {chunk : Chunk} {visible : List String} {block : Block} {statement : Statement}
  {expression : Expression} {function : Function}

/-! ### Expressions -/

/-- A chunk reads what an expression it reads is made of. -/
theorem Chunk.Reads.part {part : Expression} (h : chunk.Reads expression)
    (hmem : part ∈ expression.parts) : chunk.Reads part :=
  fun function hholds => h function (.part hmem hholds)

/-- A chunk reaches what an expression it reads stands for. -/
theorem Chunk.Reads.item (h : chunk.Reads expression) : chunk.ReachesItem expression.item := by
  intro node hnode
  cases expression with
  | identifier => cases hnode; trivial
  | literal => cases hnode; trivial
  | table inner => cases hnode; exact fun part hmem => Chunk.Reads.part h hmem
  | _ => cases hnode; exact h

/-- A path holds no function. -/
theorem Expression.IsPath.not_holds (h : expression.IsPath) : ¬ expression.Holds function := by
  intro hholds
  induction hholds with
  | self => exact h
  | @part expression part hmem _ ih =>
    cases expression with
    | identifier => cases hmem
    | member base indexer =>
      cases indexer with
      | dot => exact ih (List.mem_singleton.mp hmem ▸ h)
      | colon => exact h
    | _ => exact h

/-- The name of a function holds no function. -/
theorem Expression.IsFunctionName.not_holds (h : expression.IsFunctionName) :
    ¬ expression.Holds function := by
  intro hholds
  cases expression with
  | member base indexer name placement =>
    cases hholds with
    | part hmem hholds =>
      rw [List.mem_singleton.mp hmem] at hholds
      have hbase : base.IsPath := by cases indexer <;> exact h
      exact hbase.not_holds hholds
  | _ => exact Expression.IsPath.not_holds h hholds

/-! ### Blocks and functions -/

/-- What stands in a block the chunk sees is reached. -/
theorem Chunk.Sees.items (h : chunk.Sees visible block) : ∀ item ∈ block.items, chunk.ReachesItem item := by
  obtain ⟨statements, scope⟩ := block
  refine List.forall_mem_append.mpr ⟨List.forall_mem_map.mpr fun statement hmem node hnode => ?_,
    List.forall_mem_singleton.mpr fun node hnode => ?_⟩
  · cases hnode
    exact ⟨visible, _, h, hmem⟩
  · cases hnode

/-- A function whose name holds no functions. -/
theorem Chunk.Sees.function_items {name : Option Expression} {isLocal : Bool} {parameters : List Parameter}
    {body : Block} {placement : Placement} (h : chunk.Sees visible body)
    (hname : ∀ expression ∈ name, chunk.Reads expression) :
    ∀ item ∈ (Function.mk name isLocal parameters body placement).items, chunk.ReachesItem item := by
  refine List.forall_mem_append.mpr ⟨List.forall_mem_append.mpr ⟨?_, ?_⟩, h.items⟩
  · exact List.forall_mem_map.mpr fun expression hmem => (hname _ (Option.mem_toList.mp hmem)).item
  · refine List.forall_mem_map.mpr fun parameter _ node hnode => ?_
    cases parameter <;> cases hnode <;> trivial

/-! ### Nodes -/

/-- A name is reached always. -/
theorem Identifier.reaches_item (name : Identifier) : chunk.ReachesItem name.item := by
  intro node hnode
  cases hnode
  trivial

/-- What stands in an expression the chunk reads is reached. -/
theorem Chunk.Reads.items (h : chunk.Reads expression) :
    ∀ item ∈ expression.items, chunk.ReachesItem item := by
  have hpart {part : Expression} (hmem : part ∈ expression.parts) : chunk.ReachesItem part.item :=
    (h.part hmem).item
  cases expression with
  | identifier => exact List.forall_mem_nil _
  | literal => exact List.forall_mem_nil _
  | function inner =>
    obtain ⟨hanonymous, hsees⟩ := h inner .self
    obtain ⟨name, isLocal, parameters, body, placement⟩ := inner
    obtain ⟨rfl, -⟩ := hanonymous
    show ∀ item ∈ (Function.mk none isLocal parameters body placement).items, chunk.ReachesItem item
    exact hsees.function_items fun _ hname => nomatch hname
  | table inner =>
    obtain ⟨fields, placement⟩ := inner
    refine List.forall_mem_map.mpr fun field hfield node hnode => ?_
    cases hnode
    exact fun part hmem => Chunk.Reads.part h (List.mem_flatMap.mpr ⟨field, hfield, hmem⟩)
  | binary operator left right =>
    exact List.forall_mem_cons.mpr ⟨hpart (by simp [Expression.parts]),
      List.forall_mem_singleton.mpr (hpart (by simp [Expression.parts]))⟩
  | logical operator left right =>
    exact List.forall_mem_cons.mpr ⟨hpart (by simp [Expression.parts]),
      List.forall_mem_singleton.mpr (hpart (by simp [Expression.parts]))⟩
  | unary operator argument =>
    exact List.forall_mem_singleton.mpr (hpart (by simp [Expression.parts]))
  | member base indexer name =>
    exact List.forall_mem_cons.mpr ⟨hpart (by simp [Expression.parts]),
      List.forall_mem_singleton.mpr name.reaches_item⟩
  | index base key =>
    exact List.forall_mem_cons.mpr ⟨hpart (by simp [Expression.parts]),
      List.forall_mem_singleton.mpr (hpart (by simp [Expression.parts]))⟩
  | call base arguments =>
    exact List.forall_mem_cons.mpr ⟨hpart List.mem_cons_self,
      List.forall_mem_map.mpr fun argument hmem => hpart (List.mem_cons_of_mem _ hmem)⟩
  | tableCall base argument =>
    refine List.forall_mem_cons.mpr ⟨hpart List.mem_cons_self,
      List.forall_mem_singleton.mpr fun node hnode => ?_⟩
    cases hnode
    exact fun part hmem => Chunk.Reads.part h (List.mem_cons_of_mem _ hmem)
  | stringCall base argument =>
    refine List.forall_mem_cons.mpr ⟨hpart List.mem_cons_self,
      List.forall_mem_singleton.mpr fun node hnode => ?_⟩
    cases hnode
    trivial
  | make type fields =>
    refine List.forall_mem_cons.mpr ⟨type.reaches_item,
      List.forall_mem_map.mpr fun field hmem node hnode => ?_⟩
    cases hnode
    exact Chunk.Reads.part h (List.mem_map_of_mem hmem)

/-- What a statement of a well-formed chunk is made of. -/
theorem Chunk.WellFormed.reads_part {dialect : Dialect} {checksTargets : Bool}
    (h : chunk.WellFormed dialect checksTargets) (hsees : chunk.Sees visible block)
    (hmem : statement ∈ block.statements) (hother : ∀ function, statement ≠ .functionStatement function) :
    ∀ part ∈ statement.parts, chunk.Reads part := by
  obtain ⟨situation, -, isRepeat, hblock⟩ := hsees.wellFormed h
  obtain ⟨inner, -, hstatement⟩ := hblock.of_mem hmem
  intro part hpart function hholds
  exact ⟨hholds.isAnonymous (hstatement.part hpart hother), hsees.function hmem hpart hholds⟩

/-- The name of a function holds no function. -/
theorem Function.IsNamed.not_holds {name : Option Expression} {isLocal : Bool} {parameters : List Parameter}
    {body : Block} {placement : Placement} (h : (Function.mk name isLocal parameters body placement).IsNamed) :
    ∀ expression ∈ name, ¬ expression.Holds function := by
  rintro expression ⟨⟩
  cases isLocal with
  | true =>
    obtain ⟨identifier, rfl⟩ := h
    exact Expression.IsPath.not_holds trivial
  | false => exact Expression.IsFunctionName.not_holds h

/-- What stands in a statement of a well-formed chunk is reached. -/
theorem Chunk.WellFormed.statement_items {dialect : Dialect} {checksTargets : Bool}
    (h : chunk.WellFormed dialect checksTargets) (hsees : chunk.Sees visible block)
    (hmem : statement ∈ block.statements) : ∀ item ∈ statement.items, chunk.ReachesItem item := by
  have hpart := h.reads_part hsees hmem
  have hblock {body : Block} {isRepeat : Bool} (hbody : (body, isRepeat) ∈ statement.blocks) :=
    (hsees.nested hmem hbody).items
  cases statement with
  | labelStatement label => exact List.forall_mem_singleton.mpr label.reaches_item
  | breakStatement => exact List.forall_mem_nil _
  | gotoStatement label => exact List.forall_mem_singleton.mpr label.reaches_item
  | returnStatement arguments =>
    exact List.forall_mem_map.mpr fun argument hargument => (hpart nofun argument hargument).item
  | ifStatement clauses placement =>
    refine List.forall_mem_map.mpr fun clause hclause node hnode => ?_
    cases hnode
    have hbody : (clause.body, false) ∈ (Statement.ifStatement clauses placement).blocks :=
      List.mem_map_of_mem hclause
    refine ⟨fun condition hcondition => hpart nofun condition ?_, _, hsees.nested hmem hbody⟩
    exact List.mem_filterMap.mpr ⟨clause, hclause, hcondition⟩
  | whileStatement condition body =>
    exact List.forall_mem_cons.mpr
      ⟨(hpart nofun condition List.mem_cons_self).item, hblock List.mem_cons_self⟩
  | doStatement body => exact hblock List.mem_cons_self
  | repeatStatement body condition =>
    have hbody := hblock List.mem_cons_self
    obtain ⟨statements, scope⟩ := body
    obtain ⟨hstatements, hscope⟩ := List.forall_mem_append.mp hbody
    exact List.forall_mem_append.mpr ⟨hstatements,
      List.forall_mem_cons.mpr ⟨(hpart nofun condition List.mem_cons_self).item, hscope⟩⟩
  | localStatement names values =>
    refine List.forall_mem_append.mpr ⟨List.forall_mem_map.mpr fun name _ node hnode => ?_,
      List.forall_mem_map.mpr fun value hvalue => (hpart nofun value hvalue).item⟩
    cases name <;> cases hnode <;> trivial
  | assignment targets values =>
    exact List.forall_mem_append.mpr
      ⟨List.forall_mem_map.mpr fun part hmem => (hpart nofun part (List.mem_append_left _ hmem)).item,
        List.forall_mem_map.mpr fun part hmem => (hpart nofun part (List.mem_append_right _ hmem)).item⟩
  | callStatement call => exact List.forall_mem_singleton.mpr (hpart nofun call List.mem_cons_self).item
  | functionStatement inner =>
    obtain ⟨situation, -, isRepeat, hwellFormed⟩ := hsees.wellFormed h
    obtain ⟨-, -, hnamed, -⟩ := hwellFormed.of_mem hmem
    have hbody := hsees.function hmem (List.mem_singleton_self _) .self
    obtain ⟨name, isLocal, parameters, body, placement⟩ := inner
    show ∀ item ∈ (Function.mk name isLocal parameters body placement).items, chunk.ReachesItem item
    exact Chunk.Sees.function_items hbody fun expression hname function hholds =>
      absurd hholds (hnamed.not_holds expression hname)
  | numericFor counter start stop step body =>
    refine List.forall_mem_append.mpr ⟨List.forall_mem_cons.mpr ⟨counter.reaches_item, ?_⟩,
      hblock List.mem_cons_self⟩
    exact List.forall_mem_map.mpr fun part hmem => (hpart nofun part hmem).item
  | genericFor names iterators body =>
    refine List.forall_mem_append.mpr ⟨List.forall_mem_append.mpr ⟨?_, ?_⟩, hblock List.mem_cons_self⟩
    · exact List.forall_mem_map.mpr fun name _ => name.reaches_item
    · exact List.forall_mem_map.mpr fun part hmem => (hpart nofun part hmem).item
  | structureDeclaration name fields =>
    refine List.forall_mem_cons.mpr ⟨name.reaches_item, List.forall_mem_map.mpr fun field _ node hnode => ?_⟩
    cases hnode
    trivial

/-- In a well-formed chunk what is in a node is found like the node. -/
theorem Chunk.WellFormed.reaches_items {dialect : Dialect} {checksTargets : Bool}
    (h : chunk.WellFormed dialect checksTargets) {node : Node} (hnode : chunk.Reaches node) :
    ∀ item ∈ node.items, chunk.ReachesItem item := by
  cases node with
  | chunk inner =>
    obtain rfl : inner = chunk := hnode
    exact Chunk.Sees.chunk.items
  | statement inner =>
    obtain ⟨visible, block, hsees, hmem⟩ := hnode
    exact h.statement_items hsees hmem
  | expression inner => exact Chunk.Reads.items hnode
  | identifier => exact List.forall_mem_nil _
  | literal => exact List.forall_mem_nil _
  | table inner =>
    obtain ⟨fields, placement⟩ := inner
    refine List.forall_mem_map.mpr fun field hfield node heq => ?_
    cases heq
    exact fun part hmem => hnode part (List.mem_flatMap.mpr ⟨field, hfield, hmem⟩)
  | typedIdentifier inner =>
    exact List.forall_mem_cons.mpr
      ⟨inner.name.reaches_item, List.forall_mem_singleton.mpr inner.type.reaches_item⟩
  | clause inner =>
    obtain ⟨hcondition, visible, hsees⟩ := hnode
    cases inner with
    | elseClause => exact hsees.items
    | _ => exact List.forall_mem_cons.mpr ⟨(hcondition _ rfl).item, hsees.items⟩
  | tableField inner =>
    cases inner with
    | keyed key value =>
      exact List.forall_mem_cons.mpr ⟨(hnode key List.mem_cons_self).item, List.forall_mem_singleton.mpr
        (hnode value (List.mem_cons_of_mem _ (List.mem_singleton_self _))).item⟩
    | named name value =>
      exact List.forall_mem_cons.mpr ⟨name.reaches_item,
        List.forall_mem_singleton.mpr (hnode value List.mem_cons_self).item⟩
    | positional value => exact List.forall_mem_singleton.mpr (hnode value List.mem_cons_self).item
  | structureEntry inner =>
    exact List.forall_mem_cons.mpr
      ⟨inner.key.reaches_item, List.forall_mem_singleton.mpr inner.type.reaches_item⟩
  | makeField inner =>
    obtain ⟨key, value, placement⟩ := inner
    exact List.forall_mem_cons.mpr
      ⟨key.reaches_item, List.forall_mem_singleton.mpr (Chunk.Reads.item hnode)⟩
  | comment => exact List.forall_mem_nil _

/-- Every node of a well-formed chunk is reached. -/
theorem Chunk.WellFormed.reaches {dialect : Dialect} {checksTargets : Bool}
    (h : chunk.WellFormed dialect checksTargets) :
    ∀ node ∈ (Node.chunk chunk).postorder, chunk.Reaches node :=
  Node.forall_postorder
    (fun _ houter _ hchild => h.reaches_items houter _ (Node.mem_children.mp hchild) _ rfl) rfl

/-- Every statement of a well-formed chunk is in a block that sees some labels. -/
theorem Chunk.WellFormed.sees_statement {dialect : Dialect} {checksTargets : Bool}
    (h : chunk.WellFormed dialect checksTargets)
    (hmem : .statement statement ∈ (Node.chunk chunk).postorder) :
    ∃ visible block, chunk.Sees visible block ∧ statement ∈ block.statements :=
  h.reaches _ hmem

/-- The body of a function among the nodes of a well-formed chunk sees its own labels and no others. -/
theorem Chunk.WellFormed.sees_body {dialect : Dialect} {checksTargets : Bool}
    (h : chunk.WellFormed dialect checksTargets)
    (hmem : .expression (.function function) ∈ (Node.chunk chunk).postorder ∨
      .statement (.functionStatement function) ∈ (Node.chunk chunk).postorder) :
    chunk.Sees (labelsOf function.body.statements) function.body := by
  rcases hmem with hmem | hmem
  · exact (h.reaches _ hmem function .self).2
  · obtain ⟨visible, block, hsees, hstatement⟩ := h.sees_statement hmem
    exact hsees.function hstatement (List.mem_singleton_self _) .self

end LuaSyntax
