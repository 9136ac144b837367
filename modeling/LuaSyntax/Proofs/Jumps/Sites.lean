import LuaSyntax.Proofs.Tree.WellFormed

/-!
# The blocks of a chunk

A chunk holds blocks inside blocks, and functions, which have a block of their own and keep jumps in.
`Chunk.Site` says of a block that it stands in a chunk, together with the labels that stand before it in
the blocks around it, as far as the innermost function around it goes.

A statement of a well-formed chunk is well-formed wherever it stands, so what has to hold of the jumps
in one block holds in every block of the chunk.
-/

namespace LuaSyntax

/-! ## What expressions and statements hold -/

/-- The expressions that a field of a table is made of. -/
def TableField.parts : TableField → List Expression
  | .keyed key value _ => [key, value]
  | .named _ value _ => [value]
  | .positional value _ => [value]

/-- The expressions that an expression is made of. -/
def Expression.parts : Expression → List Expression
  | .table content => content.fields.flatMap TableField.parts
  | .binary _ left right _ => [left, right]
  | .logical _ left right _ => [left, right]
  | .unary _ argument _ => [argument]
  | .member base _ _ _ => [base]
  | .index base key _ => [base, key]
  | .call base arguments _ => base :: arguments
  | .tableCall base argument _ => base :: argument.fields.flatMap TableField.parts
  | .stringCall base _ _ => [base]
  | .make _ fields _ => fields.map MakeField.value
  | _ => []

/-- Whether an expression holds a function that is not inside of another. -/
inductive Expression.Holds (function : Function) : Expression → Prop where
  | self : Holds function (.function function)
  | part {expression part : Expression} : part ∈ expression.parts → Holds function part →
      Holds function expression

/-- The expressions that a statement is made of, those in its blocks left out. -/
def Statement.parts : Statement → List Expression
  | .returnStatement arguments _ => arguments
  | .ifStatement clauses _ => clauses.filterMap Clause.condition?
  | .whileStatement condition _ _ => [condition]
  | .repeatStatement _ condition _ => [condition]
  | .localStatement _ values _ => values
  | .assignment targets values _ => targets ++ values
  | .callStatement call _ => [call]
  | .functionStatement function => [.function function]
  | .numericFor _ start stop step _ _ => start :: stop :: step.toList
  | .genericFor _ iterators _ _ => iterators
  | _ => []

/-- The blocks that a statement holds, and whether a condition comes behind them that sees their
locals. -/
def Statement.blocks : Statement → List (Block × Bool)
  | .ifStatement clauses _ => clauses.map fun clause => (clause.body, false)
  | .whileStatement _ body _ => [(body, false)]
  | .doStatement body _ => [(body, false)]
  | .repeatStatement body _ _ => [(body, true)]
  | .numericFor _ _ _ _ body _ => [(body, false)]
  | .genericFor _ _ body _ => [(body, false)]
  | _ => []

/-- Whether a statement declares a local in its block. -/
def Statement.declaresLocal : Statement → Bool
  | .localStatement .. => true
  | .functionStatement (.mk _ isLocal _ _ _) => isLocal
  | _ => false

/-- The blocks of a chunk, each with the labels that stand before it in blocks around it in the same
function, and with whether it is the body of a loop with its condition behind. -/
inductive Chunk.Site (chunk : Chunk) : List String → Bool → Block → Prop where
  | chunk : Site chunk [] false chunk.body
  | nested {outer : List String} {isRepeat isRepeat' : Bool} {block body : Block}
      {before after : List Statement} {statement : Statement} : Site chunk outer isRepeat block →
      block.statements = before ++ statement :: after → (body, isRepeat') ∈ statement.blocks →
      Site chunk (labelsOf before ++ outer) isRepeat' body
  | function {outer : List String} {isRepeat : Bool} {block : Block} {statement : Statement}
      {expression : Expression} {function : Function} : Site chunk outer isRepeat block →
      statement ∈ block.statements → expression ∈ statement.parts → expression.Holds function →
      Site chunk [] false function.body

/-! ## Well-formed blocks -/

variable {around : Surroundings} {situation : Situation} {statement : Statement}
  {statements front back : List Statement} {name : String}

/-- Both sides of a pair are well-formed if the pair is. -/
theorem wellFormed_of_mem_pair {left right part : Expression}
    (h : left.WellFormed around false ∧ right.WellFormed around false) (hmem : part ∈ [left, right]) :
    part.WellFormed around false := by
  rcases List.mem_pair.mp hmem with rfl | rfl
  · exact h.1
  · exact h.2

/-- The parts of a well-formed field are well-formed. -/
theorem TableField.WellFormed.part {field : TableField} {part : Expression}
    (h : field.WellFormed around) (hmem : part ∈ field.parts) : part.WellFormed around false := by
  cases field with
  | keyed => exact wellFormed_of_mem_pair h hmem
  | named => exact List.mem_singleton.mp hmem ▸ h
  | positional => exact List.mem_singleton.mp hmem ▸ h

/-- The parts of a well-formed table are well-formed. -/
theorem Table.WellFormed.part {table : Table} {part : Expression} (h : table.WellFormed around)
    (hmem : part ∈ table.fields.flatMap TableField.parts) : part.WellFormed around false := by
  obtain ⟨fields, placement⟩ := table
  obtain ⟨field, hfield, hpart⟩ := List.mem_flatMap.mp hmem
  exact (wellFormedTableFields_iff.mp h field hfield).part hpart

/-- What a well-formed expression is made of is well-formed, though perhaps only if it is called. -/
theorem Expression.WellFormed.part {called : Bool} {expression part : Expression}
    (h : expression.WellFormed around called) (hmem : part ∈ expression.parts) :
    ∃ called, part.WellFormed around called := by
  cases expression with
  | table => exact ⟨false, Table.WellFormed.part h hmem⟩
  | binary => exact ⟨false, wellFormed_of_mem_pair h hmem⟩
  | logical => exact ⟨false, wellFormed_of_mem_pair h hmem⟩
  | unary => exact ⟨false, List.mem_singleton.mp hmem ▸ h⟩
  | member => exact ⟨false, List.mem_singleton.mp hmem ▸ h.2⟩
  | index => exact ⟨false, wellFormed_of_mem_pair h hmem⟩
  | call =>
    rcases List.mem_cons.mp hmem with rfl | hmem
    · exact ⟨true, h.1⟩
    · exact ⟨false, wellFormedExpressions_iff.mp h.2 part hmem⟩
  | tableCall =>
    rcases List.mem_cons.mp hmem with rfl | hmem
    · exact ⟨true, h.1⟩
    · exact ⟨false, h.2.part hmem⟩
  | stringCall => exact ⟨true, List.mem_singleton.mp hmem ▸ h.1⟩
  | make =>
    obtain ⟨⟨_, _, _⟩, hfield, rfl⟩ := List.mem_map.mp hmem
    exact ⟨false, wellFormedMakeFields_iff.mp h _ hfield⟩
  | _ => cases hmem

/-- The body of a function begins without labels. -/
theorem Function.WellFormed.body {function : Function} (h : function.WellFormed around) :
    ∃ situation : Situation, situation.dialect = around.dialect ∧ situation.visible = [] ∧
      function.body.WellFormed situation false := by
  cases function with
  | mk => exact ⟨_, rfl, rfl, h.2.1⟩

/-- A function that a well-formed expression holds is well-formed. -/
theorem Expression.Holds.wellFormed {expression : Expression} {function : Function} {called : Bool}
    (h : expression.Holds function) (hexpression : expression.WellFormed around called) :
    function.WellFormed around := by
  induction h generalizing called with
  | self => exact hexpression.2
  | part hmem _ ih =>
    obtain ⟨called, hpart⟩ := hexpression.part hmem
    exact ih hpart

/-- A function that a well-formed expression holds has no name. -/
theorem Expression.Holds.isAnonymous {expression : Expression} {function : Function} {called : Bool}
    (h : expression.Holds function) (hexpression : expression.WellFormed around called) :
    function.IsAnonymous := by
  induction h generalizing called with
  | self => exact hexpression.1
  | part hmem _ ih =>
    obtain ⟨called, hpart⟩ := hexpression.part hmem
    exact ih hpart

/-- What a well-formed statement is made of is well-formed, unless the statement is a function. -/
theorem Statement.WellFormed.part {expression : Expression} (h : statement.WellFormed situation)
    (hmem : expression ∈ statement.parts) (hother : ∀ function, statement ≠ .functionStatement function) :
    expression.WellFormed situation.toSurroundings false := by
  cases statement with
  | returnStatement => exact wellFormedExpressions_iff.mp h _ hmem
  | ifStatement clauses =>
    obtain ⟨clause, hclause, heq⟩ := List.mem_filterMap.mp hmem
    have hclause := wellFormedClauses_iff.mp h.2 clause hclause
    cases clause <;> cases heq <;> exact hclause.1
  | whileStatement => exact List.mem_singleton.mp hmem ▸ h.1
  | repeatStatement => exact List.mem_singleton.mp hmem ▸ h.2
  | localStatement => exact wellFormedExpressions_iff.mp h.2.2 _ hmem
  | assignment =>
    rcases List.mem_append.mp hmem with hmem | hmem
    · exact wellFormedExpressions_iff.mp h.2.2.2.1 _ hmem
    · exact wellFormedExpressions_iff.mp h.2.2.2.2 _ hmem
  | callStatement => exact List.mem_singleton.mp hmem ▸ h.2
  | functionStatement function => exact absurd rfl (hother function)
  | numericFor _ start stop step =>
    have hparts : wellFormedExpressions situation.toSurroundings (start :: stop :: step.toList) := by
      refine ⟨h.1, h.2.1, ?_⟩
      cases step with
      | none => trivial
      | some step => exact ⟨h.2.2.1, trivial⟩
    exact wellFormedExpressions_iff.mp hparts _ hmem
  | genericFor => exact wellFormedExpressions_iff.mp h.2.2.1 _ hmem
  | _ => cases hmem

/-- A function in a well-formed statement is well-formed in the same surroundings. -/
theorem Statement.WellFormed.function {expression : Expression} {function : Function}
    (h : statement.WellFormed situation) (hmem : expression ∈ statement.parts)
    (hholds : expression.Holds function) : function.WellFormed situation.toSurroundings := by
  cases statement with
  | functionStatement =>
    cases List.mem_singleton.mp hmem
    cases hholds with
    | self => exact h.2
    | part hmem => cases hmem
  | _ => exact hholds.wellFormed (h.part hmem nofun)

/-- A block that a well-formed statement holds is well-formed, where some blocks are in a loop. -/
theorem Statement.WellFormed.block {body : Block} {isRepeat : Bool} (h : statement.WellFormed situation)
    (hmem : (body, isRepeat) ∈ statement.blocks) :
    body.WellFormed situation isRepeat ∨ body.WellFormed situation.loop isRepeat := by
  cases statement with
  | ifStatement clauses =>
    obtain ⟨clause, hclause, heq⟩ := List.mem_map.mp hmem
    have hclause := wellFormedClauses_iff.mp h.2 clause hclause
    cases heq
    cases clause with
    | elseClause => exact .inl hclause
    | _ => exact .inl hclause.2
  | whileStatement => cases List.mem_singleton.mp hmem; exact .inr h.2
  | doStatement => cases List.mem_singleton.mp hmem; exact .inl h
  | repeatStatement => cases List.mem_singleton.mp hmem; exact .inr h.1
  | numericFor => cases List.mem_singleton.mp hmem; exact .inr h.2.2.2
  | genericFor => cases List.mem_singleton.mp hmem; exact .inr h.2.2.2
  | _ => cases hmem

/-- The place behind some statements. -/
def Situation.after (situation : Situation) (statements : List Statement) : Situation :=
  statements.foldl Situation.behind situation

/-- Statements do not change the surroundings. -/
theorem Situation.toSurroundings_after :
    (situation.after statements).toSurroundings = situation.toSurroundings := by
  induction statements generalizing situation with
  | nil => rfl
  | cons statement rest ih => exact @ih (situation.behind statement)

/-- Behind statements their labels are visible, and what was visible before. -/
theorem Situation.mem_visible_after :
    name ∈ (situation.after statements).visible ↔ name ∈ labelsOf statements ++ situation.visible := by
  induction statements generalizing situation with
  | nil => rfl
  | cons statement rest ih =>
    rw [after, List.foldl_cons, ← after, ih, behind, labelsOf, labelsOf, List.filterMap_cons]
    cases statement.label? <;> simp [or_left_comm]

/-- Each statement of a well-formed sequence is well-formed behind those in front of it. -/
theorem wellFormed_after (h : wellFormedStatements situation (front ++ statement :: back)) :
    statement.WellFormed (situation.after front) := by
  induction front generalizing situation with
  | nil => exact h.1
  | cons first rest ih => exact ih h.2

/-- What declares a local declares one or more. -/
theorem Statement.WellFormed.localCount_pos (h : statement.WellFormed situation)
    (hdeclares : statement.declaresLocal = true) : 0 < statement.localCount := by
  cases statement with
  | localStatement => exact List.length_pos_of_ne_nil h.1
  | functionStatement function =>
    cases function with
    | mk _ isLocal =>
      obtain rfl : isLocal = true := hdeclares
      exact Nat.one_pos
  | _ => cases hdeclares

namespace Chunk.Site

variable {chunk : Chunk} {dialect : Dialect} {checksTargets isRepeat : Bool} {outer : List String}
  {block : Block}

/-- A block of a well-formed chunk is well-formed where it stands. -/
theorem wellFormed (hsite : chunk.Site outer isRepeat block)
    (h : chunk.WellFormed dialect checksTargets) :
    ∃ situation : Situation, situation.dialect = dialect ∧
      (∀ name, name ∈ situation.visible ↔ name ∈ outer) ∧ block.WellFormed situation isRepeat := by
  induction hsite with
  | chunk => exact ⟨_, rfl, fun _ => Iff.rfl, h.1⟩
  | @nested outer _ _ _ _ before _ _ _ heq hmem ih =>
    obtain ⟨situation, hdialect, hvisible, hblock⟩ := ih
    obtain ⟨-, -, hstatements⟩ := Block.wellFormed_iff.mp hblock
    rw [heq] at hstatements
    have hdialect : (situation.after before).dialect = dialect :=
      (congrArg Surroundings.dialect Situation.toSurroundings_after).trans hdialect
    have hvisible (name : String) :
        name ∈ (situation.after before).visible ↔ name ∈ labelsOf before ++ outer := by
      rw [Situation.mem_visible_after, List.mem_append, List.mem_append, hvisible]
    rcases (wellFormed_after hstatements).block hmem with hbody | hbody
    · exact ⟨_, hdialect, hvisible, hbody⟩
    · exact ⟨(situation.after before).loop, hdialect, hvisible, hbody⟩
  | function _ hstatement hmem hholds ih =>
    obtain ⟨situation, hdialect, -, hblock⟩ := ih
    obtain ⟨-, -, hstatements⟩ := Block.wellFormed_iff.mp hblock
    obtain ⟨before, after, heq⟩ := List.append_of_mem hstatement
    rw [heq] at hstatements
    have hfunction := (wellFormed_after hstatements).function hmem hholds
    rw [Situation.toSurroundings_after] at hfunction
    obtain ⟨inside, hinside, hvisible, hbody⟩ := hfunction.body
    exact ⟨inside, hinside.trans hdialect, fun name => hvisible ▸ Iff.rfl, hbody⟩

/-- No jump in a well-formed chunk enters the scope of a local, unless a label of its name stands before
it in a block further out. -/
theorem entersNoLocal (hsite : chunk.Site outer isRepeat block)
    (h : chunk.WellFormed dialect checksTargets) (hlabels : dialect.has .labels = true)
    {before between after : List Statement} {source : Statement} {label : Identifier}
    {placement : Placement}
    (heq : block.statements = before ++ source :: between ++ .labelStatement label placement :: after)
    (hgoto : label.name ∈ source.escaping) (houter : label.name ∉ outer)
    (hlocal : ∃ statement ∈ between, statement.declaresLocal = true) :
    (∀ statement ∈ after, statement.label? ≠ none) ∧ isRepeat = false := by
  obtain ⟨situation, rfl, hvisible, hblock⟩ := hsite.wellFormed h
  obtain ⟨horderly, -, hstatements⟩ := Block.wellFormed_iff.mp hblock
  refine (horderly hlabels).entersNoLocal before source between label placement after heq hgoto
    (mt (hvisible _).mp houter) ?_
  obtain ⟨statement, hmem, hdeclares⟩ := hlocal
  obtain ⟨first, rest, rfl⟩ := List.append_of_mem hmem
  have hsplit : block.statements = (before ++ source :: first) ++ statement ::
      (rest ++ .labelStatement label placement :: after) := by
    rw [heq]
    simp
  rw [hsplit] at hstatements
  have hcount := (wellFormed_after hstatements).localCount_pos hdeclares
  rw [localCount_append, localCount_cons]
  omega

end Chunk.Site

end LuaSyntax
