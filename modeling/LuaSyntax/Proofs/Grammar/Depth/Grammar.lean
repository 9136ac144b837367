import LuaSyntax.Proofs.Grammar.Depth.Rule

/-!
# All rules rest on those for what is nested

Each rule of the grammar is made of simpler ones and of those for what is nested. A statement and an expression
ask for nothing nested before they have taken a token; the rules that they begin with are therefore followed up
to their first token.
-/

namespace LuaSyntax.Grammar.Rests

open Rule

variable {early : Bool}

/-! ## Leaves -/

theorem identifier : Rests early fun _ => identifier := by
  refine .mark fun start => .current fun token => ?_
  cases token.name? with
  | none => exact .demand _
  | some name =>
    exact .andThen advance fun _ => .andThen (placed start) fun _ => .andThen (complete _) fun _ => .give _

theorem resolved : Rests early fun _ => resolved :=
  .andThen identifier fun _ => .look (fun _ _ _ => rfl) fun _ =>
    .andThen (.modify (fun _ _ _ => rfl) fun _ => ⟨rfl, rfl⟩) fun _ => .give _

theorem literal : Rests early fun _ => literal := by
  refine .mark fun start => .current fun token => ?_
  cases literalValue? token.value with
  | none => exact .refuse
  | some value =>
    exact .andThen advance fun _ => .andThen (placed start) fun _ => .andThen (complete _) fun _ => .give _

theorem declarator : Rests early fun _ => declarator := by
  refine .mark fun start => .andThen identifier fun name => .has fun typed => .at? fun found => .ite
    (fun _ => ?_) fun _ => .give _
  exact .andThen advance fun _ => .andThen identifier fun _ => .andThen (placed start) fun _ =>
    .andThen (complete _) fun _ => .give _

theorem member (base : Expression) (indexer : Indexer) (name : Identifier) (start : Place) :
    Rests early fun _ => member base indexer name start :=
  .andThen (placed start) fun _ => completed _

/-! ## Blocks and functions -/

/-- A part of a block asks for what is nested at once, since a statement may begin with it. -/
theorem blockTurn : Rests true blockTurn := by
  refine .current fun token => .ite (fun _ => .give _) fun _ => .has fun relaxed =>
    .andThen .nestedStatement fun statement => .ite (fun _ => .ite (fun _ => ?_) fun _ => .give _) fun _ => ?_
  · exact .consume (.give _) (.give _)
  · exact .consume (.give _) (.give _)

/-- The statements of a block come one turn after another. -/
theorem statements : Rests true statements := .andThen (repeated blockTurn) fun _ => .give _

theorem scopedBlock (isLoop : Bool) : Rests true fun nested => scopedBlock nested isLoop :=
  .andThen openScope fun _ => .andThen (openBlock isLoop) fun _ => .andThen statements fun _ =>
    .andThen closeBlock fun _ => .andThen closeScope fun _ => .give _

theorem declaredParameter (name : Declarator) : Rests early fun _ => declaredParameter name := by
  cases name with
  | plain name => exact .andThen (declare name) fun _ => .give _
  | typed typed => exact .andThen (declare typed.name) fun _ => .give _

theorem parameterTurn : Rests true fun _ => parameterTurn := by
  refine .current fun token => ?_
  cases token.kind with
  | identifier =>
    exact .andThen declarator fun name => .andThen (declaredParameter name) fun _ => .consume (.give _)
      (.andThen expect fun _ => .give _)
  | vararg =>
    exact .andThen (.modify (fun _ _ _ => rfl) fun _ => ⟨rfl, rfl⟩) fun _ => .andThen literal fun _ =>
      .andThen expect fun _ => .give _
  | _ => exact .demand _

theorem parameters : Rests true fun _ => parameters :=
  .andThen expect fun _ => .consume (.give _) (repeated parameterTurn)

theorem functionBody (name : Option Expression) (isLocal isMethod : Bool) (start : Place) :
    Rests true fun nested => functionBody nested name isLocal isMethod start := by
  have hrest : Rests true fun nested => (do
      let outer := (← Rule.state).jumps
      Rule.setJumps
        { tracksLabels := outer.tracksLabels
          checksTargets := outer.checksTargets
          allowsVararg := false }
      Rule.openBlock false
      let parameters ← Grammar.parameters
      let body ← Grammar.statements nested
      Rule.closeBlock
      Rule.setJumps outer
      Rule.expect ReservedWord.endWord
      let scope ← Rule.closeScope
      return Function.mk name isLocal parameters (.mk body scope) (← Rule.placed start)) :=
    .look (fun _ _ _ => rfl) fun _ => .andThen (setJumps _) fun _ => .andThen (openBlock _) fun _ =>
      .andThen parameters fun _ => .andThen statements fun _ => .andThen closeBlock fun _ =>
        .andThen (setJumps _) fun _ => .andThen expect fun _ => .andThen closeScope fun _ =>
          .andThen (placed start) fun _ => .give _
  refine .andThen openScope fun _ => ?_
  cases isMethod with
  | false => exact hrest
  | true => exact .andThen (declareName "self") fun _ => hrest

theorem nameStep (start : Place) (base : Expression) : Rests true fun _ => nameStep start base :=
  .consume (.andThen identifier fun _ => .andThen (member _ _ _ _) fun _ => .give _) (.give _)

theorem functionName : Rests true fun _ => functionName :=
  .mark fun start => .andThen resolved fun _ =>
    .andThen (iterated (fun base => nameStep start base) _) fun _ =>
      .consume (.andThen identifier fun _ => .andThen (member _ _ _ _) fun _ => .give _) (.give _)

/-! ## Expressions -/

/-- What has to be there rests on what might have been missing. -/
theorem required {rule : Nested → Rule (Option Expression)} (h : Rests early rule) :
    Rests early fun nested => required (rule nested) := by
  refine .andThen h fun found => ?_
  cases found with
  | none => exact .demand _
  | some expression => exact .give _

theorem expression : Rests true Grammar.expression := required (.nestedExpression 0)

theorem commaExpression : Rests true commaExpression :=
  .consume (.andThen expression fun _ => .give _) (.give _)

theorem expressionList : Rests true expressionList :=
  .andThen expression fun _ => .andThen (many commaExpression) fun _ => .give _

theorem optionalList : Rests true optionalList := by
  refine .andThen (.nestedExpression 0) fun found => ?_
  cases found with
  | none => exact .give _
  | some first => exact .andThen (many commaExpression) fun _ => .give _

/-! ### Constructors -/

theorem tableField : Rests true tableField := by
  refine .mark fun start => .consume ?_ (.current fun token => .look (fun _ _ _ => rfl) fun s => .ite
    (fun _ => ?_) fun _ => ?_)
  · exact .andThen expression fun _ => .andThen expect fun _ => .andThen expect fun _ =>
      .andThen expression fun _ => .andThen (placed start) fun _ => .give _
  · exact .andThen identifier fun _ => .andThen advance fun _ => .andThen expression fun _ =>
      .andThen (placed start) fun _ => .give _
  · refine .andThen (.nestedExpression 0) fun found => ?_
    cases found with
    | none => exact .give _
    | some value => exact .andThen (placed start) fun _ => .give _

/-- A separator behind a field is taken. -/
theorem separated {α : Type} (more last : α) : Rests true fun _ => (do
    if (← Rule.at? Symbol.comma) || (← Rule.at? Symbol.semicolon) then
      Rule.advance
      return more
    else return last) :=
  .at? fun _ => .at? fun _ => .ite (fun _ => .andThen advance fun _ => .give _) fun _ => .give _

theorem tableTurn : Rests true tableTurn := by
  refine .andThen tableField fun found => ?_
  cases found with
  | none => exact .give _
  | some field => exact .andThen (complete _) fun _ => separated _ _

theorem tableBody (start : Place) : Rests true fun nested => tableBody nested start :=
  .andThen (repeated tableTurn) fun _ => .andThen expect fun _ => .andThen (placed start) fun _ =>
    .andThen (complete _) fun _ => .give _

theorem makeTurn : Rests true makeTurn :=
  .at? fun _ => .ite (fun _ => .give _) fun _ => .mark fun start => .andThen identifier fun _ =>
    .andThen expect fun _ => .andThen expression fun _ => .andThen (placed start) fun _ =>
      .andThen (complete _) fun _ => separated _ _

theorem makeBody (start : Place) : Rests true fun nested => makeBody nested start :=
  .andThen identifier fun _ => .andThen expect fun _ => .andThen (repeated makeTurn) fun _ =>
    .andThen expect fun _ => .andThen (placed start) fun _ => completed _

/-- A primary expression asks for what is nested only behind a token of its own. -/
theorem primary : Rests early primary := by
  refine .mark fun start => .current fun token => .ite (fun _ => ?_) fun _ => ?_
  · exact .look (fun _ _ _ => rfl) fun _ => .ite (fun _ => .blame _ _ _) fun _ =>
      .andThen literal fun _ => .give _
  · refine .consume (.andThen (functionBody _ _ _ _) fun _ => .andThen (completed _) fun _ => .give _) ?_
    refine .consume (.andThen (tableBody _) fun _ => .give _) ?_
    exact .consume (.andThen (makeBody _) fun _ => .give _) (.give _)

/-! ### Suffixes -/

theorem callArguments (base : Expression) (start : Place) :
    Rests true fun nested => callArguments nested base start := by
  refine .current fun token => .ite (fun _ => ?_) fun _ => .ite (fun _ => ?_) fun _ => .ite (fun _ => ?_)
    fun _ => .demand _
  · refine .has fun flexible => .look (fun _ _ _ => rfl) fun _ => .ite (fun _ => .blame _ _ _) fun _ => ?_
    exact .andThen advance fun _ => .andThen optionalList fun _ => .andThen expect fun _ =>
      .andThen (placed start) fun _ => completed _
  · exact .mark fun tableStart => .andThen advance fun _ => .andThen (tableBody tableStart) fun _ =>
      .andThen (placed start) fun _ => completed _
  · exact .andThen literal fun _ => .andThen (placed start) fun _ => completed _

theorem suffix (start : Place) (base : Expression) : Rests true fun nested => suffix nested start base := by
  refine .consume ?_ (.consume ?_ (.consume ?_ (callArguments base start)))
  · exact .andThen expression fun _ => .andThen expect fun _ => .andThen (placed start) fun _ => completed _
  · exact .andThen identifier fun _ => member _ _ _ _
  · exact .andThen identifier fun _ => .andThen (member _ _ _ _) fun method => callArguments method start

theorem suffixStep (start : Place) (base : Expression) :
    Rests true fun nested => suffixStep nested start base :=
  .current fun _ => .ite (fun _ => .andThen (suffix start base) fun _ => .give _) fun _ => .give _

theorem suffixes (start : Place) (base : Expression) :
    Rests true fun nested => Rule.iterated (Grammar.suffixStep nested start) base :=
  iterated (fun base => suffixStep start base) base

theorem parenthesised : Rests true parenthesised :=
  .andThen expression fun _ => .andThen expect fun _ => .give _

/-- Something with suffixes begins with a name or a parenthesis, so a token is taken first. -/
theorem suffixed : Rests early suffixed := by
  refine .mark fun start => .current fun token => .ite (fun _ => ?_) fun _ => .consume ?_ (.give _)
  · exact .behind resolved takes_resolved fun _ => .andThen (suffixes start _) fun _ => .give _
  · exact .andThen parenthesised fun _ => .andThen (suffixes start _) fun _ => .give _

/-! ### Operators -/

/-- An operand takes a token before it asks for another. -/
theorem operand (start : Place) : Rests early fun nested => operand nested start := by
  refine .current fun token => ?_
  cases UnaryOperator.ofToken? token.value with
  | some operator =>
    exact .advanced (.andThen (required (.nestedExpression _)) fun _ => .andThen (placed start) fun _ =>
      .andThen (completed _) fun _ => .give _)
  | none =>
    refine .andThen primary fun found => ?_
    cases found with
    | none => exact suffixed
    | some expression => exact .give _

/-- An operator is a token, and it is taken before what stands on its right. -/
theorem operatorStep (level : Nat) (start : Place) (left : Expression) :
    Rests early fun nested => operatorStep nested level start left := by
  refine .current fun token => ?_
  cases Operator.ofToken? token.value with
  | none => exact .give _
  | some operator =>
    simp only
    split
    · exact .give _
    · exact .advanced (.andThen (required (.nestedExpression _)) fun _ => .andThen (placed start) fun _ =>
        .andThen (completed _) fun _ => .give _)

/-- A row of operands takes its first token before anything is nested. -/
theorem operation (level : Nat) : Rests early fun nested => operation nested level := by
  refine .mark fun start => .andThen (operand start) fun found => ?_
  cases found with
  | none => exact .give _
  | some first => exact .andThen (iterated (fun left => operatorStep level start left) first) fun _ => .give _

/-! ## Statements -/

theorem labelStatement (start : Place) : Rests early fun _ => labelStatement start :=
  .current fun _ => .andThen identifier fun _ => .andThen expect fun _ => .look (fun _ _ _ => rfl) fun _ =>
    .andThen (checked _) fun _ => .andThen (setJumps _) fun _ => .andThen (placed start) fun _ => .give _

theorem gotoStatement (start : Place) : Rests early fun _ => gotoStatement start :=
  .look (fun _ _ _ => rfl) fun _ => .andThen identifier fun _ => .look (fun _ _ _ => rfl) fun _ =>
    .andThen (setJumps _) fun _ => .andThen (placed start) fun _ => .give _

theorem breakStatement (start : Place) : Rests early fun _ => breakStatement start :=
  .look (fun _ _ _ => rfl) fun _ => .ite (fun _ => .andThen (placed start) fun _ => .give _)
    fun _ => .complain _

theorem returnStatement (start : Place) : Rests true fun nested => returnStatement nested start :=
  .current fun _ => .ite (fun _ => .andThen (placed start) fun _ => .give _) fun _ =>
    .andThen optionalList fun _ => .consume (.andThen (placed start) fun _ => .give _)
      (.andThen (placed start) fun _ => .give _)

/-! ### Conditions and loops -/

theorem clauseCompleted (clause : Clause) : Rests early fun _ => clauseCompleted clause :=
  .andThen (complete _) fun _ => .give _

theorem elseifClause : Rests true elseifClause :=
  .mark fun start => .consume
    (.andThen expression fun _ => .andThen expect fun _ => .andThen (scopedBlock false) fun _ =>
      .andThen (placed start) fun _ => .andThen (clauseCompleted _) fun _ => .give _) (.give _)

theorem elseClause : Rests true elseClause :=
  .mark fun start => .consume
    (.andThen (scopedBlock false) fun _ => .andThen (placed start) fun _ =>
      .andThen (clauseCompleted _) fun _ => .give _) (.give _)

theorem ifStatement (start : Place) : Rests true fun nested => ifStatement nested start :=
  .andThen expression fun _ => .andThen expect fun _ => .andThen (scopedBlock false) fun _ =>
    .andThen (placed start) fun _ => .andThen (clauseCompleted _) fun _ =>
      .andThen (many elseifClause) fun _ => .andThen elseClause fun _ => .andThen expect fun _ =>
        .andThen (placed start) fun _ => .give _

theorem whileStatement (start : Place) : Rests true fun nested => whileStatement nested start :=
  .andThen expression fun _ => .andThen expect fun _ => .andThen (scopedBlock true) fun _ =>
    .andThen expect fun _ => .andThen (placed start) fun _ => .give _

/-- The condition is read behind the body, and the body is asked for behind the keyword. -/
theorem repeatStatement (start : Place) : Rests true fun nested => repeatStatement nested start :=
  .andThen openScope fun _ => .andThen (openBlock true) fun _ => .andThen statements fun _ =>
    .andThen expect fun _ => .andThen goOn fun _ => .andThen expression fun _ =>
      .andThen closeBlock fun _ => .andThen closeScope fun _ => .andThen (placed start) fun _ => .give _

theorem loopBody : Rests true loopBody :=
  .andThen (openBlock true) fun _ => .andThen statements fun _ => .andThen closeBlock fun _ =>
    .andThen expect fun _ => .give _

theorem numericFor (counter : Identifier) (start : Place) :
    Rests true fun nested => numericFor nested counter start :=
  .andThen expression fun _ => .andThen expect fun _ => .andThen expression fun _ =>
    .andThen commaExpression fun _ => .andThen expect fun _ => .andThen openScope fun _ =>
      .andThen (declare _) fun _ => .andThen loopBody fun _ => .andThen closeScope fun _ =>
        .andThen (placed start) fun _ => .give _

theorem commaIdentifier : Rests true fun _ => commaIdentifier :=
  .consume (.andThen identifier fun _ => .give _) (.give _)

theorem genericFor (first : Identifier) (start : Place) :
    Rests true fun nested => genericFor nested first start :=
  .andThen (many commaIdentifier) fun _ => .andThen expect fun _ => .andThen expressionList fun _ =>
    .andThen expect fun _ => .andThen openScope fun _ => .andThen (declareAll _) fun _ =>
      .andThen loopBody fun _ => .andThen closeScope fun _ => .andThen (placed start) fun _ => .give _

theorem forStatement (start : Place) : Rests true fun nested => forStatement nested start :=
  .andThen identifier fun _ => .consume (numericFor _ _) (genericFor _ _)

/-! ### Declarations and assignments -/

theorem recordedDeclarator : Rests true fun _ => recordedDeclarator :=
  .andThen declarator fun _ => .andThen (recordLocal _) fun _ => .give _

theorem commaDeclarator : Rests true fun _ => commaDeclarator :=
  .consume (.andThen recordedDeclarator fun _ => .give _) (.give _)

theorem declareVariables (names : List Declarator) : Rests true fun _ => declareVariables names := by
  induction names with
  | nil => exact .give []
  | cons name rest ih => exact .andThen (declare _) fun _ => .andThen ih fun _ => .give _

theorem localFunction (start : Place) : Rests true fun nested => localFunction nested start :=
  .andThen identifier fun _ => .andThen (recordLocal _) fun _ => .andThen (declare _) fun _ =>
    .andThen (functionBody _ _ _ _) fun _ => .give _

theorem localVariables (start : Place) : Rests true fun nested => localVariables nested start := by
  refine .andThen recordedDeclarator fun first => .andThen (many commaDeclarator) fun others => ?_
  have hrest (values : List Expression) : Rests true fun _ => (do
      let names ← Grammar.declareVariables (first :: others)
      return Statement.localStatement names values (← Rule.placed start)) :=
    .andThen (declareVariables _) fun _ => .andThen (placed start) fun _ => .give _
  exact .consume (.andThen expressionList hrest) (.andThen (.give _) hrest)

theorem localStatement (start : Place) : Rests true fun nested => localStatement nested start :=
  .consume (localFunction start) (localVariables start)

/-- A target begins with a name or a parenthesis, so a token is taken first. -/
theorem target : Rests early target := by
  refine .mark fun start => .current fun token => .ite (fun _ => ?_) fun _ => .consume ?_ .refuse
  · exact .behind resolved takes_resolved fun _ => .andThen (suffixes start _) fun _ => .give _
  · exact .andThen parenthesised fun _ => .current fun _ => .andThen (suffixes start _) fun _ => .give _

theorem targetTurn : Rests true targetTurn :=
  .andThen target fun _ => .ite (fun _ => .refuse) fun _ => .consume (.give _) (.give _)

/-- The values stand behind the sign of assignment. -/
theorem assignedValues (targets : List Expression) (start : Place) :
    Rests early fun nested => assignedValues nested targets start :=
  .expected (.andThen expressionList fun _ => .andThen (placed start) fun _ => .give _)

/-- An assignment or a call begins with a target. -/
theorem assignmentOrCall (start : Place) : Rests early fun nested => assignmentOrCall nested start := by
  refine .andThen target fun first => .at? fun more => .ite
    (fun _ => .andThen (placed start) fun _ => .give _) fun _ => .ite (fun _ => .refuse) fun _ => .ite
      (fun _ => ?_) fun _ => assignedValues _ _
  exact .advanced (.andThen (repeated targetTurn) fun _ => assignedValues _ _)

theorem structureEntry : Rests true fun _ => structureEntry := by
  refine .at? fun _ => .ite (fun _ => .give _) fun _ => .mark fun start => .andThen identifier fun _ =>
    .andThen expect fun _ => .andThen identifier fun _ => .andThen (placed start) fun _ =>
      .andThen (complete _) fun _ => ?_
  exact .consume (.give _) (.consume (.give _) (.give _))

theorem structureDeclaration (start : Place) : Rests true fun _ => structureDeclaration start :=
  .andThen identifier fun _ => .andThen (many structureEntry) fun _ => .andThen expect fun _ =>
    .andThen (placed start) fun _ => .give _

/-! ### All statements -/

/-- Which statement begins with a keyword does not depend on what is nested in it. -/
theorem keywordStatement (start : Place) (word : ReservedWord) :
    (∀ nested, keywordStatement nested start word = none) ∨ ∃ rule : Nested → Rule Statement,
      Rests true rule ∧ ∀ nested, keywordStatement nested start word = some (rule nested) := by
  cases word
  case localWord => exact .inr ⟨_, localStatement start, fun _ => rfl⟩
  case ifWord => exact .inr ⟨_, ifStatement start, fun _ => rfl⟩
  case returnWord => exact .inr ⟨_, returnStatement start, fun _ => rfl⟩
  case functionWord =>
    have hnamed : Rests true fun nested => (do
        let found ← Grammar.functionName
        return Statement.functionStatement (← Grammar.functionBody nested (some found.1) false found.2 start)) :=
      .andThen functionName fun _ => .andThen (functionBody _ _ _ _) fun _ => .give _
    exact .inr ⟨_, hnamed, fun _ => rfl⟩
  case whileWord => exact .inr ⟨_, whileStatement start, fun _ => rfl⟩
  case forWord => exact .inr ⟨_, forStatement start, fun _ => rfl⟩
  case repeatWord => exact .inr ⟨_, repeatStatement start, fun _ => rfl⟩
  case breakWord => exact .inr ⟨_, breakStatement start, fun _ => rfl⟩
  case doWord =>
    have hblock : Rests true fun nested => (do
        let body ← Grammar.scopedBlock nested false
        Rule.expect ReservedWord.endWord
        return Statement.doStatement body (← Rule.placed start)) :=
      .andThen (scopedBlock false) fun _ => .andThen expect fun _ => .andThen (placed start) fun _ => .give _
    exact .inr ⟨_, hblock, fun _ => rfl⟩
  case gotoWord => exact .inr ⟨_, gotoStatement start, fun _ => rfl⟩
  case hstructureWord => exact .inr ⟨_, structureDeclaration start, fun _ => rfl⟩
  all_goals exact .inl fun _ => rfl

/-- Behind a keyword the rule for it may ask for what is nested; without one a target comes first. -/
theorem properStatement (start : Place) : Rests early fun nested => properStatement nested start := by
  refine .current fun token => ?_
  have hother : Rests early fun nested => (do
      if ← Grammar.atContextualGoto then
        Rule.advance
        Grammar.gotoStatement start
      else Grammar.assignmentOrCall nested start) := by
    have hlook : Rests early fun _ => atContextualGoto :=
      .look (fun _ _ _ => rfl) fun _ => .has fun _ => .give _
    exact .andThen hlook fun _ => .ite (fun _ => .andThen advance fun _ => gotoStatement start)
      fun _ => assignmentOrCall start
  cases token.value with
  | keyword word =>
    rcases keywordStatement start word with hnone | ⟨rule, hrule, hsome⟩
    · simp only [hnone]
      exact assignmentOrCall start
    · simp only [hsome]
      exact .advanced hrule
  | _ => exact hother

/-- A statement takes a token before it asks for what is nested in it. -/
theorem statement : Rests early Grammar.statement := by
  refine .mark fun start => .has fun _ => .at? fun _ => .ite (fun _ => ?_) fun _ => .has fun _ => .at? fun _ =>
    .ite (fun _ => ?_) fun _ => ?_
  · exact .andThen advance fun _ => .andThen (labelStatement start) fun _ => .give _
  · exact .andThen advance fun _ => .give _
  · exact .andThen goOn fun _ => .andThen (properStatement start) fun _ => .give _

/-! ## Chunks -/

theorem takeUnresolved : Rests early fun _ => takeUnresolved :=
  .look (fun _ _ _ => rfl) fun _ => .andThen (.modify (fun _ _ _ => rfl) fun _ => ⟨rfl, rfl⟩) fun _ => .give _

/-- A chunk asks for its statements at once. -/
theorem chunkBody : Rests true chunkBody := by
  refine .mark fun start => .andThen openScope fun _ => .andThen (openBlock false) fun _ =>
    .andThen statements fun body => .andThen closeBlock fun _ => .andThen closeScope fun scope => ?_
  have hwhole : Rests true fun _ => (do
      let placement ← Rule.placed start
      let globals ← Grammar.takeUnresolved
      let found := (← Rule.state).comments
      let comments := if (← Rule.context).options.collectComments then some found else none
      let chunk : Chunk := { body := .mk body scope, comments, globals, placement }
      Rule.complete (.chunk chunk)
      return chunk) :=
    .andThen (placed start) fun _ => .andThen takeUnresolved fun _ => .look (fun _ _ _ => rfl) fun _ =>
      .andThen (.aloof .context) fun _ => .andThen (complete _) fun _ => .give _
  have hrest : Rests true fun _ => (do
      if body.isEmpty then Rule.modify fun state => { state with previous := state.token }
      let placement ← Rule.placed start
      let globals ← Grammar.takeUnresolved
      let found := (← Rule.state).comments
      let comments := if (← Rule.context).options.collectComments then some found else none
      let chunk : Chunk := { body := .mk body scope, comments, globals, placement }
      Rule.complete (.chunk chunk)
      return chunk) :=
    .ite (fun _ => .andThen (.modify (fun _ _ _ => rfl) fun _ => ⟨rfl, rfl⟩) fun _ => hwhole) fun _ => hwhole
  exact .current fun _ => .ite (fun _ => .andThen .refuse fun _ => hrest) fun _ => hrest

/-- The tokens that come into view before a chunk do not ask for anything. -/
theorem chunkOver : Rests true chunkOver :=
  .andThen advance fun _ => .andThen advance fun _ => chunkBody

end LuaSyntax.Grammar.Rests
