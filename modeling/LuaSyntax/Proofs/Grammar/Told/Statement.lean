import LuaSyntax.Grammar.Statement
import LuaSyntax.Proofs.Grammar.Told.Expression
import LuaSyntax.Proofs.Grammar.Levels

/-!
# Statements and chunks that are told of

A statement is told of by who asked for it, as soon as it is read. A name that it declares was told of
when it was read, and is known to be local only when the statement is put together.

All levels of the grammar tell of what they give, by induction on the levels. A parse of a chunk opens a
scope and tells of statements. It fails on the way, or it closes the scope and finds something behind the
statements, or it comes to the end of the input and tells of the chunk last.
-/

namespace LuaSyntax.Grammar

open Rule

variable {context : Context} {origin : State} {items : List Item} {begun : Bool} {nested : Nested}

/-- The end of a statement that began in one state. -/
def StatementEnds (context : Context) (origin : State) (statement : Statement) (s : State) : Prop :=
  Ended context origin (.statement statement) s

/-- A statement is put together where it ends. -/
theorem Rule.Runs.statement {make : Placement → Statement}
    (hitems : ∀ placement, (make placement).items = items)
    (hplacement : ∀ placement, (make placement).placement = placement) :
    (placed origin.token.start >>= fun placement => pure (make placement)).Runs context origin
      (Underway context origin true items) (StatementEnds context origin) := by
  have hnode : ∀ placement, (Node.statement (make placement)).items = items := hitems
  exact .ended hnode hplacement fun _ _ hs => hs

/-- A statement is put together where it ends, with what has become known of its names. -/
theorem Rule.Runs.declaration {make : Placement → Statement}
    (halike : ∀ placement, ReadAlike items (make placement).items)
    (hplacement : ∀ placement, (make placement).placement = placement) :
    (placed origin.token.start >>= fun placement => pure (make placement)).Runs context origin
      (Underway context origin true items) (StatementEnds context origin) := by
  rintro s hs ⟨htold, htaken⟩
  refine ⟨hs, fun v heq => ?_⟩
  obtain rfl := Except.ok.inj heq
  exact ⟨htold.renamed (halike _), htaken rfl, hplacement _⟩

/-! ## Jumps -/

/-- A label is told of behind its name. -/
theorem labelStatement_runs : (labelStatement origin.token.start).Runs context origin
    (Underway context origin true []) (StatementEnds context origin) := by
  refine .glance fun token => identifier_tells.bind fun label => (Runs.expect _).bind fun _ => ?_
  refine .look fun s => (checked_silent _).bind fun jumps => (setJumps_silent jumps).bind fun _ => ?_
  exact .statement (fun _ => rfl) fun _ => rfl

/-- A `goto` is told of behind its name. -/
theorem gotoStatement_runs : (gotoStatement origin.token.start).Runs context origin
    (Underway context origin true []) (StatementEnds context origin) := by
  refine .look fun s => identifier_tells.bind fun label => .look fun t => ?_
  exact (setJumps_silent _).bind fun _ => .statement (fun _ => rfl) fun _ => rfl

/-- A `break` is told of by itself. -/
theorem breakStatement_runs : (breakStatement origin.token.start).Runs context origin
    (Underway context origin true []) (StatementEnds context origin) :=
  .look fun _ => .ite (fun _ => .statement (fun _ => rfl) fun _ => rfl) fun _ => .complain _

/-! ## Names -/

/-- A name behind a comma is told of, if a comma stands there. -/
theorem commaIdentifier_tells : commaIdentifier.Tells fun v => v.toList.map Identifier.item := by
  refine .of_runs fun context origin => .consume (identifier_tells.bind fun name => ?_) ?_
  · exact .give fun _ hs => hs.told
  · exact .give fun _ hs => hs.told

/-- A declared name is told of as it is read, and its jumps are not. -/
theorem recordedDeclarator_tells : recordedDeclarator.Tells fun v => [v.item] := by
  refine .of_runs fun context origin => declarator_tells.bind fun name => ?_
  exact (recordLocal_silent _).bind fun _ => .give fun _ hs => hs.told

/-- A declared name behind a comma is told of, if a comma stands there. -/
theorem commaDeclarator_tells : commaDeclarator.Tells fun v => v.toList.map Declarator.item := by
  refine .of_runs fun context origin => .consume (recordedDeclarator_tells.bind fun name => ?_) ?_
  · exact .give fun _ hs => hs.told
  · exact .give fun _ hs => hs.told

/-- Declared variables are told of as they were read. -/
theorem declareVariables_runs (names : List Declarator) : (declareVariables names).Runs context origin
    (Underway context origin begun items) fun v s =>
      ReadAlike (names.map Declarator.item) (v.map Declarator.item) ∧
        Underway context origin begun items s := by
  induction names with
  | nil => exact .give fun _ hs => ⟨rfl, hs⟩
  | cons name rest ih =>
    refine (declare_runs name.identifier).bindKnown fun declared hdeclared => ?_
    refine ih.bindKnown fun others hothers => .give fun _ hs => ⟨?_, hs⟩
    exact (Declarator.readAlike hdeclared).append hothers

/-- An entry of a structure is told of behind its name and its type. -/
theorem structureEntry_tells : structureEntry.Tells
    fun v => v.toList.map fun entry => .node (.structureEntry entry) := by
  refine fun context origin => .at? (.give fun s hs => hs.1 ▸ .nothing _) (.mark ?_)
  refine identifier_tells.bind fun key => (Runs.expect _).bind fun _ => identifier_tells.bind fun type => ?_
  refine .node (fun _ => rfl) (fun _ => rfl) (fun _ => rfl) fun _ => .consume ?_ (.consume ?_ ?_)
  all_goals exact .give fun _ hs => hs.told

/-- The declaration of a structure is told of behind its entries. -/
theorem structureDeclaration_runs : (structureDeclaration origin.token.start).Runs context origin
    (Underway context origin true []) (StatementEnds context origin) := by
  refine identifier_tells.bind fun name => (Tells.many structureEntry_tells).bind fun fields => ?_
  exact (Runs.expect _).bind fun _ => .statement (fun _ => rfl) fun _ => rfl

/-- A clause is told of behind its condition and its body. -/
theorem clauseCompleted_runs (clause : Clause) : (clauseCompleted clause).Runs context origin
    (Ended context origin (.clause clause))
      fun v => Underway context origin true [.node (.clause v)] :=
  (Runs.complete rfl).bind fun _ => .give fun _ hs => hs

section

variable (hn : nested.Tells)

include hn

/-- A `return` is told of behind what it returns. -/
theorem returnStatement_runs : (returnStatement nested origin.token.start).Runs context origin
    (Underway context origin true []) (StatementEnds context origin) := by
  refine .glance fun token => .ite (fun _ => .statement (fun _ => rfl) fun _ => rfl) fun _ => ?_
  refine (optionalList_tells hn).bind fun arguments => .consume ?_ ?_
  · exact .statement (fun _ => rfl) fun _ => rfl
  · exact .statement (fun _ => rfl) fun _ => rfl

/-! ## Conditions and loops -/

/-- A further condition is told of, if there is one. -/
theorem elseifClause_tells : (elseifClause nested).Tells
    fun v => v.toList.map fun clause => .node (.clause clause) := by
  refine fun context origin => .mark (.consume ?_ (.give fun _ hs => hs.told))
  refine (expression_tells hn).bind fun condition => (Runs.expect _).bind fun _ => ?_
  refine (scopedBlock_tells hn false).bind fun body => ?_
  have hitems (placement : Placement) :
    (Node.clause (.elseifClause condition body placement)).items = condition.item :: body.items := rfl
  refine .close hitems (fun _ => rfl) fun _ => (clauseCompleted_runs _).bind fun clause => ?_
  exact .give fun _ hs => hs.told

/-- What is done otherwise is told of, if there is anything. -/
theorem elseClause_tells : (elseClause nested).Tells
    fun v => v.map fun clause => .node (.clause clause) := by
  refine fun context origin => .mark (.consume ?_ (.give fun _ hs => hs.told))
  refine (scopedBlock_tells hn false).bind fun body => ?_
  have hitems (placement : Placement) :
    (Node.clause (.elseClause body placement)).items = body.items := rfl
  refine .close hitems (fun _ => rfl) fun _ => (clauseCompleted_runs _).bind fun clause => ?_
  exact .give fun _ hs => hs.told

/-- A conditional statement is told of behind its clauses. -/
theorem ifStatement_runs : (ifStatement nested origin.token.start).Runs context origin
    (Underway context origin true []) (StatementEnds context origin) := by
  refine (expression_tells hn).bind fun condition => (Runs.expect _).bind fun _ => ?_
  refine (scopedBlock_tells hn false).bind fun body => ?_
  have hitems (placement : Placement) :
    (Node.clause (.ifClause condition body placement)).items = condition.item :: body.items := rfl
  refine .close hitems (fun _ => rfl) fun _ => (clauseCompleted_runs _).bind fun first => ?_
  refine (Tells.many (elseifClause_tells hn)).bind fun others => (elseClause_tells hn).bind fun last => ?_
  refine (Runs.expect _).bind fun _ => .statement (fun _ => ?_) fun _ => rfl
  exact List.map_append

/-- A loop is told of behind its condition and its body. -/
theorem whileStatement_runs : (whileStatement nested origin.token.start).Runs context origin
    (Underway context origin true []) (StatementEnds context origin) := by
  refine (expression_tells hn).bind fun condition => (Runs.expect _).bind fun _ => ?_
  refine (scopedBlock_tells hn true).bind fun body => (Runs.expect _).bind fun _ => ?_
  exact .statement (fun _ => rfl) fun _ => rfl

/-- A loop is told of behind its body and its condition. -/
theorem repeatStatement_runs : (repeatStatement nested origin.token.start).Runs context origin
    (Underway context origin true []) (StatementEnds context origin) := by
  refine openScope_tells.bind fun _ => (openBlock_silent true).bind fun _ => ?_
  refine (statements_tells hn).bind fun body => (Runs.expect _).bind fun _ => goOn_silent.bind fun _ => ?_
  refine (expression_tells hn).bind fun condition => closeBlock_silent.bind fun _ => ?_
  refine (closeScope_runs [] (body.map Statement.item ++ [condition.item]) rfl).bind fun scope => ?_
  exact .statement (fun _ => by simp [Statement.items]) fun _ => rfl

/-- The body of a loop is told of without a scope of its own. -/
theorem loopBody_tells : (loopBody nested).Tells fun v => v.map Statement.item := by
  refine .of_runs fun context origin => (openBlock_silent true).bind fun _ => ?_
  refine (statements_tells hn).bind fun body => closeBlock_silent.bind fun _ => ?_
  exact (Runs.expect _).bind fun _ => .give fun _ hs => hs.told

/-- A loop over numbers is told of behind its counter, its bounds and its body. -/
theorem numericFor_runs (counter : Identifier) :
    (numericFor nested counter origin.token.start).Runs context origin
      (Underway context origin true [counter.item]) (StatementEnds context origin) := by
  refine (expression_tells hn).bind fun first => (Runs.expect _).bind fun _ => ?_
  refine (expression_tells hn).bind fun last => (commaExpression_tells hn).bind fun step => ?_
  refine (Runs.expect _).bind fun _ => openScope_tells.bind fun _ => ?_
  refine (declare_runs counter).bindKnown fun declared hdeclared => (loopBody_tells hn).bind fun body => ?_
  refine (closeScope_runs ([counter.item, first.item, last.item] ++ step.toList.map Expression.item)
    (body.map Statement.item) ?_).bind fun scope => ?_
  · simp
  · refine .declaration (fun _ => ?_) fun _ => rfl
    have hcounter := Identifier.readAlike hdeclared
    simpa [Statement.items, Block.items] using hcounter.append (.refl _)

/-- A loop over iterators is told of behind its names, its iterators and its body. -/
theorem genericFor_runs (first : Identifier) :
    (genericFor nested first origin.token.start).Runs context origin
      (Underway context origin true [first.item]) (StatementEnds context origin) := by
  refine (Tells.many commaIdentifier_tells).bind fun others => (Runs.expect _).bind fun _ => ?_
  refine (expressionList_tells hn).bind fun iterators => (Runs.expect _).bind fun _ => ?_
  refine openScope_tells.bind fun _ => (declareAll_runs (first :: others)).bindKnown fun names hnames => ?_
  refine (loopBody_tells hn).bind fun body => ?_
  refine (closeScope_runs ((first :: others).map Identifier.item ++ iterators.map Expression.item)
    (body.map Statement.item) ?_).bind fun scope => ?_
  · simp
  · refine .declaration (fun _ => ?_) fun _ => rfl
    simpa [Statement.items, Block.items] using hnames.append (.refl _)

/-- Either kind of loop behind `for` is told of behind its parts. -/
theorem forStatement_runs : (forStatement nested origin.token.start).Runs context origin
    (Underway context origin true []) (StatementEnds context origin) :=
  identifier_tells.bind fun first => .consume (numericFor_runs hn first) (genericFor_runs hn first)

/-! ## Declarations and assignments -/

/-- A function that is a statement, behind its name. -/
theorem functionStatement_runs (name : Expression) (isLocal isMethod : Bool) :
    (functionBody nested (some name) isLocal isMethod origin.token.start >>= fun function =>
      pure (Statement.functionStatement function)).Runs context origin
        (Underway context origin true [name.item]) (StatementEnds context origin) := by
  refine (functionBody_runs hn isLocal isMethod (fun function => .statement (.functionStatement function))
    (fun _ => rfl) fun _ _ _ _ _ => rfl).bind fun function => ?_
  exact .give fun _ hs => hs

/-- A local function is told of behind its name and its body. -/
theorem localFunction_runs : (localFunction nested origin.token.start).Runs context origin
    (Underway context origin true []) (StatementEnds context origin) := by
  refine identifier_tells.bind fun name => (recordLocal_silent _).bind fun _ => ?_
  refine (declare_runs name).bindKnown fun declared hdeclared => ?_
  have hname (s : State) (hs : Underway context origin true [name.item] s) :
      Underway context origin true [(Expression.identifier declared).item] s :=
    hs.renamed (Identifier.readAlike hdeclared)
  exact (functionStatement_runs hn (.identifier declared) true false).since hname

/-- Local variables are told of behind their values. -/
theorem localVariables_runs : (localVariables nested origin.token.start).Runs context origin
    (Underway context origin true []) (StatementEnds context origin) := by
  refine recordedDeclarator_tells.bind fun first => (Tells.many commaDeclarator_tells).bind fun others => ?_
  have hrest (values : List Expression) :
      (declareVariables (first :: others) >>= fun names => placed origin.token.start >>= fun placement =>
        pure (Statement.localStatement names values placement)).Runs context origin
          (Underway context origin true
            ((first :: others).map Declarator.item ++ values.map Expression.item))
          (StatementEnds context origin) := by
    refine (declareVariables_runs (first :: others)).bindKnown fun names hnames => ?_
    exact .declaration (fun _ => hnames.append (.refl _)) fun _ => rfl
  refine .consume ((expressionList_tells hn).bind hrest) ((hrest []).since fun s hs => ?_)
  rwa [List.map_nil, List.append_nil]

/-- What is local is told of as a function or as variables. -/
theorem localStatement_runs : (localStatement nested origin.token.start).Runs context origin
    (Underway context origin true []) (StatementEnds context origin) :=
  .consume (localFunction_runs hn) (localVariables_runs hn)

/-- A target is told of as an expression. -/
theorem target_tells : (target nested).Tells fun v => [v.1.item] := by
  refine fun context origin => .mark (.glance fun token => .ite (fun _ => ?_) fun _ => .consume ?_ .refuse)
  · refine resolved_tells.bind fun name => ?_
    have hname (s : State) (hs : Underway context origin false [name.item] s) :
      Underway context origin true [(Expression.identifier name).item] s := hs.begun_of_expression
    exact ((suffixes_runs hn _).since hname).bind fun v => .give fun _ hs => hs.told
  · refine (parenthesised_tells hn).bind fun inner => .glance fun token => ?_
    exact (suffixes_runs hn inner).bind fun v => .give fun _ hs => hs.told

/-- A target behind a comma is told of, if a comma stands there. -/
theorem targetTurn_tells : (targetTurn nested).Tells fun v => v.items.flatMap fun e => [e.item] := by
  refine .of_runs fun context origin => (target_tells hn).bind fun v => ?_
  obtain ⟨place, bare⟩ := v
  refine .ite (fun _ => .refuse) fun _ => .consume ?_ ?_
  · exact .give fun _ hs => hs.told
  · exact .give fun _ hs => hs.told

/-- An assignment is told of behind its targets and its values. -/
theorem assignedValues_runs (targets : List Expression) :
    (assignedValues nested targets origin.token.start).Runs context origin
      (Underway context origin true (targets.map Expression.item)) (StatementEnds context origin) := by
  refine (Runs.expect _).bind fun _ => (expressionList_tells hn).bind fun values => ?_
  exact .statement (fun _ => rfl) fun _ => rfl

/-- An assignment or a call is told of behind what it begins with. -/
theorem assignmentOrCall_runs : (assignmentOrCall nested origin.token.start).Runs context origin
    (Underway context origin false []) (StatementEnds context origin) := by
  refine (target_tells hn).bind fun v => ?_
  obtain ⟨first, bare⟩ := v
  have hcall : (placed origin.token.start >>= fun placement =>
      pure (Statement.callStatement first placement)).Runs context origin
      (Underway context origin true [first.item]) (StatementEnds context origin) :=
    .statement (fun _ => rfl) fun _ => rfl
  have hrest : (repeated (targetTurn nested) >>= fun others =>
      assignedValues nested (first :: others) origin.token.start).Runs context origin
      (Underway context origin true [first.item]) (StatementEnds context origin) := by
    refine (Tells.repeated (targetTurn_tells hn)).bind fun others => ?_
    rw [← List.map_eq_flatMap]
    exact assignedValues_runs hn (first :: others)
  refine .at? (.ite (fun h => absurd h (by simp)) fun _ => .ite (fun _ => .refuse) fun _ => ?_) ?_
  · exact (Runs.advance fun _ hs => hs).bind fun _ => hrest
  · refine .ite (fun _ => hcall.since fun _ hs => Underway.begun_of_expression hs) fun _ => .ite (fun _ => .refuse) fun _ => ?_
    exact (assignedValues_runs hn [first]).since fun _ hs => Underway.begun_of_expression hs

/-! ## Statements -/

/-- Whatever statement a keyword begins, it is told of behind its parts. -/
theorem keywordStatement_runs {word : ReservedWord} {rule : Rule Statement}
    (h : keywordStatement nested origin.token.start word = some rule) :
    rule.Runs context origin (Underway context origin true []) (StatementEnds context origin) := by
  cases word <;> cases h
  case localWord => exact localStatement_runs hn
  case ifWord => exact ifStatement_runs hn
  case returnWord => exact returnStatement_runs hn
  case functionWord =>
    refine functionName_tells.bind fun v => ?_
    obtain ⟨name, isMethod⟩ := v
    exact functionStatement_runs hn name false isMethod
  case whileWord => exact whileStatement_runs hn
  case forWord => exact forStatement_runs hn
  case repeatWord => exact repeatStatement_runs hn
  case breakWord => exact breakStatement_runs
  case doWord =>
    refine (scopedBlock_tells hn false).bind fun body => (Runs.expect _).bind fun _ => ?_
    exact .statement (fun _ => rfl) fun _ => rfl
  case gotoWord => exact gotoStatement_runs
  case hstructureWord => exact structureDeclaration_runs

/-- A statement that is not empty is told of behind its parts. -/
theorem properStatement_runs : (properStatement nested origin.token.start).Runs context origin
    (Underway context origin false []) (StatementEnds context origin) := by
  refine .current fun s hs => ?_
  split
  · next word hword =>
    cases hrule : keywordStatement nested origin.token.start word with
    | some rule =>
      have hend : s.token.value ≠ .endOfInput := hword ▸ nofun
      exact (Runs.step hs (isEnd_eq_false hend)).bind fun _ => keywordStatement_runs hn hrule
    | none => exact (assignmentOrCall_runs hn).since fun _ heq => heq ▸ hs
  · rintro t htold heq
    subst heq
    show Tidings context origin _ ((if context.options.has .contextualGoto && _ && _ then _ else _ :
      Rule Statement) context t)
    have hrest : (assignmentOrCall nested origin.token.start).Runs context origin (· = t)
        (StatementEnds context origin) :=
      (assignmentOrCall_runs hn).since fun _ heq => heq ▸ hs
    refine Runs.ite (fun hgoto => ?_) (fun _ => hrest) t htold rfl
    have hname := beq_iff_eq.mp (Bool.and_eq_true_iff.mp (Bool.and_eq_true_iff.mp hgoto).1).2
    have hend : t.token.value ≠ .endOfInput := fun h => by rw [Token.name?, h] at hname; cases hname
    exact (Runs.step hs (isEnd_eq_false hend)).bind fun _ => gotoStatement_runs

/-- What a statement leads to. It is told of by who asked for it; an empty one is nothing to tell of. -/
def OptionalEnds (context : Context) (origin : State) (statement : Option Statement) (s : State) : Prop :=
  match statement with
  | none => Told context origin [] s
  | some statement => StatementEnds context origin statement s

/-- A statement is told of behind its parts, unless it is empty. -/
theorem statement_runs : (statement nested).Runs context origin (· = origin)
    (OptionalEnds context origin) := by
  have hproper : (goOn >>= fun _ => properStatement nested origin.token.start >>= fun v =>
      pure (some v)).Runs context origin (Underway context origin false [])
        (OptionalEnds context origin) :=
    goOn_silent.bind fun _ => (properStatement_runs hn).bind fun v => .give fun _ hs => hs
  have hempty : (has .emptyStatement >>= fun empty => at? Symbol.semicolon >>=
      fun semicolon => if empty && semicolon then advance >>= fun _ => pure none
        else goOn >>= fun _ => properStatement nested origin.token.start >>= fun v => pure (some v)).Runs
          context origin (Underway context origin false []) (OptionalEnds context origin) := by
    refine .has fun empty => .at? (.ite (fun _ => ?_) fun _ => ?_) (.ite (fun h => absurd h (by simp)) fun _ => hproper)
    · exact (Runs.advance fun _ hs => hs).bind fun _ => .give fun _ hs => hs.told
    · exact hproper.since fun _ hs => hs.1
  refine .mark (.has fun labels => .at? (.ite (fun _ => ?_) fun _ => ?_) (.ite (fun h => absurd h (by simp)) fun _ => hempty))
  · refine (Runs.advance fun _ hs => hs).bind fun _ => labelStatement_runs.bind fun v => ?_
    exact .give fun _ hs => hs
  · exact hempty.since fun _ hs => hs.1

end

/-! ## Levels and chunks -/

variable {s : State}

/-- A statement of the next level is told of by who asked for it. -/
theorem nestedStatement_tells (hn : nested.Tells) : (nestedStatement nested).Tells
    fun v => v.toList.map Statement.item := by
  refine fun context origin => (statement_runs hn).bind fun v => ?_
  cases v with
  | none => exact .give fun _ hs => hs
  | some statement => exact (Runs.complete rfl).bind fun _ => .give fun _ hs => hs.told

/-- All levels of the grammar tell of what they give, by induction on the levels. -/
theorem tells_levels (level : Nat) : (levels level).Tells := by
  induction level with
  | zero => exact ⟨fun _ _ => .complain _, fun _ _ _ => .complain _⟩
  | succ level ih => exact ⟨nestedStatement_tells ih, operation_tells ih⟩

/-- How a parse of a chunk that began in one state may come out. -/
inductive ChunkRun (context : Context) (s opened : State) : Except ParseError Chunk × State → Prop where
  /-- It fails in a statement. -/
  | inside {error : ParseError} {items : List Item} {t : State} : Told context opened items t →
      ChunkRun context s opened (.error error, t)
  /-- It fails behind the last statement, where the input does not end. -/
  | behind {error : ParseError} {items : List Item} {t u : State} {scope : Option (List Binding)} :
      Told context opened items t → closeScope context t = (.ok scope, u) →
      ChunkRun context s opened (.error error, u)
  /-- It comes to the end of the input. -/
  | whole {chunk : Chunk} {body : List Statement} {t u v : State} {scope : Option (List Binding)} :
      Told context opened (body.map Statement.item) t → closeScope context t = (.ok scope, u) →
      u.token.isEnd = true → chunk.body = .mk body scope →
      chunk.placement = s.ending context (if body.isEmpty then { u with previous := u.token } else u) →
      chunk.comments = (if context.options.collectComments then some u.comments else none) →
      v.log = .completed (.chunk chunk) :: u.log → v.comments = u.comments →
      ChunkRun context s opened (.ok chunk, v)

/-- A chunk opens a scope, and then it fails, finds something behind its statements or is told of last. -/
theorem chunkBody_run (limit : Nat) (context : Context) (s : State) :
    ∃ opened, openScope context s = (.ok (), opened) ∧
      ChunkRun context s opened (chunkBody (levels limit) context s) := by
  have hopen := openScope_eq context s
  generalize hopened : (if s.scope.enabled then _ else s) = opened at hopen
  refine ⟨opened, hopen, ?_⟩
  have hmark : mark context s = (.ok s.token.start, s) := rfl
  have hblock : openBlock false context opened =
      (.ok (), { opened with jumps := opened.jumps.push false }) := rfl
  have hway : Underway context opened false [] { opened with jumps := opened.jumps.push false } :=
    ⟨(Told.nothing opened).jumps _, nofun⟩
  rw [chunkBody, bind_of_ok hmark, bind_of_ok hopen, bind_of_ok hblock]
  have hstatements := (statements_tells (tells_levels limit)).runs _ ⟨[], hway.told⟩ hway
  match hrun : statements (levels limit) context { opened with jumps := opened.jumps.push false } with
  | (.error error, t) =>
    rw [hrun] at hstatements
    obtain ⟨items, htold⟩ := hstatements.told
    rw [bind_of_error hrun]
    exact .inside htold
  | (.ok body, t) =>
    rw [hrun] at hstatements
    have htold := hstatements.value body rfl
    have hclose := closeBlock_silent context opened false _ t ⟨_, htold.told⟩ htold
    rw [bind_of_ok hrun]
    match hrun : closeBlock context t with
    | (.error error, u) =>
      rw [hrun] at hclose
      obtain ⟨items, htold⟩ := hclose.told
      rw [bind_of_error hrun]
      exact .inside htold
    | (.ok _, u) =>
      rw [hrun] at hclose
      have htold := (hclose.value _ rfl).told
      have hscope := closeScope_eq context u
      rw [bind_of_ok hrun, bind_of_ok hscope]
      generalize hleft : (if u.scope.enabled then _ else u) = left at hscope
      show ChunkRun context s opened ((if !left.token.isEnd then _ else _ : Rule Chunk) context left)
      cases hend : left.token.isEnd with
      | false =>
        obtain ⟨error, hrefuse⟩ : ∃ error, (refuse : Rule Unit) context left = (.error error, left) :=
          fails_refuse context left
        rw [Bool.not_false, if_pos rfl, bind_of_error hrefuse]
        exact .behind htold hscope
      | true =>
        rw [Bool.not_true, if_neg Bool.false_ne_true]
        cases hempty : body.isEmpty with
        | false =>
          rw [if_neg Bool.false_ne_true]
          refine .whole htold hscope hend rfl ?_ rfl rfl rfl
          rw [hempty]
          rfl
        | true =>
          rw [if_pos rfl]
          refine .whole htold hscope hend rfl ?_ rfl rfl rfl
          rw [hempty]
          rfl

/-- A parse fails to bring its first two tokens into view, or it reads a chunk behind them. -/
theorem chunk_run (limit : Nat) (context : Context) (s : State) :
    (∃ error t, chunkOver (levels limit) context s = (.error error, t) ∧
      (t = s ∨ advance context s = (.ok (), t))) ∨
    ∃ t u, advance context s = (.ok (), t) ∧ advance context t = (.ok (), u) ∧
      chunkOver (levels limit) context s = chunkBody (levels limit) context u := by
  match hfirst : advance context s with
  | (.error error, t) =>
    obtain rfl := advance_eq_error hfirst
    exact .inl ⟨error, _, bind_of_error hfirst, .inl rfl⟩
  | (.ok _, t) =>
    match hsecond : advance context t with
    | (.error error, u) =>
      obtain rfl := advance_eq_error hsecond
      exact .inl ⟨error, _, (bind_of_ok hfirst).trans (bind_of_error hsecond), .inr rfl⟩
    | (.ok _, u) =>
      exact .inr ⟨t, u, rfl, hsecond, (bind_of_ok hfirst).trans (bind_of_ok hsecond)⟩

end LuaSyntax.Grammar
