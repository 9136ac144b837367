import LuaSyntax.Proofs.Grammar.Depth.Levels
import LuaSyntax.Parse
import LuaSyntax.Proofs.Grammar.Scoping.Statement
import LuaSyntax.Proofs.Grammar.Tacit.Expression

/-!
# Statements and chunks whose names are not resolved

A parse that does not track scopes says of no name that it is local, lists the names of no block and the globals
of no chunk. So all that its tree has besides what was written are places.
-/

namespace LuaSyntax

/-- Clauses that say nothing of their names say nothing one by one. -/
theorem Reticent.clauses {clauses : List Clause} (h : Reticent clauses) :
    eraseClauses .placements clauses = eraseClauses .annotations clauses := by
  rw [eraseClauses_eq, eraseClauses_eq]
  exact h

namespace Grammar

open Rule

/-! ## Jumps -/

/-- A label says nothing of its name. -/
theorem tacit_labelStatement (start : Place) : (labelStatement start).Tacit := by
  refine .behind unscoped_current fun token => tacit_identifier.bind fun label hlabel => ?_
  refine .behind (unscoped_expect _) fun _ => .behind unscoped_state fun _ => ?_
  refine .behind (unscoped_checked _) fun jumps => .behind (unscoped_setJumps jumps) fun _ => ?_
  exact .behind (unscoped_placed start) fun _ => .give (congrArg (Statement.labelStatement · .none) hlabel)

/-- A `goto` says nothing of its name. -/
theorem tacit_gotoStatement (start : Place) : (gotoStatement start).Tacit := by
  refine .behind unscoped_state fun _ => tacit_identifier.bind fun label hlabel => ?_
  refine .behind unscoped_state fun _ => .behind (unscoped_setJumps _) fun _ => ?_
  exact .behind (unscoped_placed start) fun _ => .give (congrArg (Statement.gotoStatement · .none) hlabel)

/-- A `break` has no names. -/
theorem tacit_breakStatement (start : Place) : (breakStatement start).Tacit :=
  .behind unscoped_state fun _ => .ite (.behind (unscoped_placed start) fun _ => .give rfl) (.complain _)

/-! ## Leaves of declarations -/

theorem tacit_commaIdentifier : commaIdentifier.Tacit :=
  .behind (unscoped_consume _) fun _ => .ite (.some tacit_identifier) (.give rfl)

/-- A declared name is recorded with the jumps and not with the scope. -/
theorem tacit_recordedDeclarator : recordedDeclarator.Tacit :=
  tacit_declarator.bind fun _ hname => .behind (unscoped_recordLocal _) fun _ => .give hname

theorem tacit_commaDeclarator : commaDeclarator.Tacit :=
  .behind (unscoped_consume _) fun _ => .ite (.some tacit_recordedDeclarator) (.give rfl)

/-- Variables that are declared where scopes are switched off are not said to be local. -/
theorem tacit_declareVariables {names : List Declarator} (h : Reticent names) : (declareVariables names).Tacit := by
  induction names with
  | nil => exact .give rfl
  | cons name rest ih =>
    obtain ⟨hname, hrest⟩ := reticent_cons.mp h
    have hidentifier : Reticent name.identifier := by
      cases name with
      | plain name => exact Declarator.plain.inj hname
      | typed typed => exact (TypedIdentifier.mk.inj (Declarator.typed.inj hname)).1
    refine (tacit_declare hidentifier).bind fun declared hdeclared => (ih hrest).bind fun others hothers => ?_
    refine .give (reticent_cons.mpr ⟨?_, hothers⟩)
    cases name with
    | plain name => exact congrArg Declarator.plain hdeclared
    | typed typed =>
      have htype := (TypedIdentifier.mk.inj (Declarator.typed.inj hname)).2.1
      exact congrArg₂ (fun name type => Declarator.typed ⟨name, type, .none⟩) hdeclared htype

theorem tacit_clauseCompleted {clause : Clause} (h : Reticent clause) : (clauseCompleted clause).Tacit :=
  .behind (unscoped_complete _) fun _ => .give h

/-- An entry of a structure says nothing of its names. -/
theorem tacit_structureEntry : structureEntry.Tacit := by
  refine .behind (unscoped_at? _) fun _ => .ite (.give rfl) ?_
  refine .behind unscoped_mark fun start => tacit_identifier.bind fun key hkey => ?_
  refine .behind (unscoped_expect _) fun _ => tacit_identifier.bind fun type htype => ?_
  refine .behind (unscoped_placed start) fun placement => .behind (unscoped_complete _) fun _ => ?_
  have hentry : Reticent (StructureEntry.mk key type placement) :=
    congrArg₂ (fun key type => StructureEntry.mk key type .none) hkey htype
  refine .behind (unscoped_consume _) fun _ => .ite ?_ (.give (reticent_some.mpr hentry))
  exact .behind (unscoped_consume _) fun _ => .give (reticent_some.mpr hentry)

theorem tacit_structureDeclaration (start : Place) : (structureDeclaration start).Tacit := by
  refine tacit_identifier.bind fun name hname => (Tacit.many tacit_structureEntry).bind fun fields hfields => ?_
  refine .behind (unscoped_expect _) fun _ => .behind (unscoped_placed start) fun _ => .give ?_
  exact congrArg₂ (Statement.structureDeclaration · · .none) hname hfields

variable {nested : Nested} (hn : nested.Tacit)

include hn

/-! ## Conditions and loops -/

theorem tacit_returnStatement (start : Place) : (returnStatement nested start).Tacit := by
  refine .behind unscoped_current fun _ => .ite ?_ ?_
  · exact .behind (unscoped_placed start) fun _ => .give rfl
  refine (tacit_optionalList hn).bind fun arguments harguments => .behind (unscoped_consume _) fun _ => ?_
  refine .behind (unscoped_placed start) fun _ => .give ?_
  exact congrArg (Statement.returnStatement · .none) harguments.expressions

theorem tacit_elseifClause : (elseifClause nested).Tacit := by
  refine .behind unscoped_mark fun start => .behind (unscoped_consume _) fun _ => .ite ?_ (.give rfl)
  refine (tacit_expression hn).bind fun condition hcondition => .behind (unscoped_expect _) fun _ => ?_
  refine (tacit_scopedBlock hn false).bind fun body hbody => .behind (unscoped_placed start) fun _ => ?_
  exact .some (tacit_clauseCompleted (congrArg₂ (Clause.elseifClause · · .none) hcondition hbody))

theorem tacit_elseClause : (elseClause nested).Tacit := by
  refine .behind unscoped_mark fun start => .behind (unscoped_consume _) fun _ => .ite ?_ (.give rfl)
  refine (tacit_scopedBlock hn false).bind fun body hbody => .behind (unscoped_placed start) fun placement => ?_
  have hlast : Reticent (Clause.elseClause body placement) := congrArg (Clause.elseClause · .none) hbody
  refine (tacit_clauseCompleted hlast).bind fun clause hclause => ?_
  exact .give (reticent_cons.mpr ⟨hclause, reticent_nil⟩)

/-- A conditional statement says nothing of its names. -/
theorem tacit_ifStatement (start : Place) : (ifStatement nested start).Tacit := by
  refine (tacit_expression hn).bind fun condition hcondition => .behind (unscoped_expect _) fun _ => ?_
  refine (tacit_scopedBlock hn false).bind fun body hbody => .behind (unscoped_placed start) fun placement => ?_
  have hif : Reticent (Clause.ifClause condition body placement) :=
    congrArg₂ (Clause.ifClause · · .none) hcondition hbody
  refine (tacit_clauseCompleted hif).bind fun first hfirst => ?_
  refine (Tacit.many (tacit_elseifClause hn)).bind fun others hothers => ?_
  refine (tacit_elseClause hn).bind fun last hlast => .behind (unscoped_expect _) fun _ => ?_
  have hclauses : Reticent (first :: others ++ last) :=
    reticent_append.mpr ⟨reticent_cons.mpr ⟨hfirst, hothers⟩, hlast⟩
  refine .behind (unscoped_placed start) fun _ => .give ?_
  exact congrArg (Statement.ifStatement · .none) hclauses.clauses

theorem tacit_whileStatement (start : Place) : (whileStatement nested start).Tacit := by
  refine (tacit_expression hn).bind fun condition hcondition => .behind (unscoped_expect _) fun _ => ?_
  refine (tacit_scopedBlock hn true).bind fun body hbody => .behind (unscoped_expect _) fun _ => ?_
  refine .behind (unscoped_placed start) fun _ => .give ?_
  exact congrArg₂ (Statement.whileStatement · · .none) hcondition hbody

theorem tacit_repeatStatement (start : Place) : (repeatStatement nested start).Tacit := by
  refine tacit_openScope.bind fun _ _ => .behind (unscoped_openBlock true) fun _ => ?_
  refine (tacit_statements hn).bind fun body hbody => .behind (unscoped_expect _) fun _ => ?_
  refine .behind unscoped_goOn fun _ => (tacit_expression hn).bind fun condition hcondition => ?_
  refine .behind unscoped_closeBlock fun _ => tacit_closeScope.bind fun scope hscope => ?_
  refine .behind (unscoped_placed start) fun _ => .give ?_
  exact congrArg₂ (Statement.repeatStatement · · .none) (reticent_block hbody hscope) hcondition

theorem tacit_loopBody : (loopBody nested).Tacit := by
  refine .behind (unscoped_openBlock true) fun _ => (tacit_statements hn).bind fun body hbody => ?_
  exact .behind unscoped_closeBlock fun _ => .behind (unscoped_expect _) fun _ => .give hbody

/-- A loop over numbers says nothing if its counter does not. -/
theorem tacit_numericFor {counter : Identifier} (hcounter : Reticent counter) (start : Place) :
    (numericFor nested counter start).Tacit := by
  refine (tacit_expression hn).bind fun first hfirst => .behind (unscoped_expect _) fun _ => ?_
  refine (tacit_expression hn).bind fun last hlast => (tacit_commaExpression hn).bind fun step hstep => ?_
  refine .behind (unscoped_expect _) fun _ => tacit_openScope.bind fun _ _ => ?_
  refine (tacit_declare hcounter).bind fun declared hdeclared => (tacit_loopBody hn).bind fun body hbody => ?_
  refine tacit_closeScope.bind fun scope hscope => .behind (unscoped_placed start) fun _ => .give ?_
  have hheader := congrArg₂ (Statement.numericFor · · · · · .none) hdeclared hfirst
  have hbounds := congr (congr hheader hlast) hstep.expression?
  exact (congr hbounds (reticent_block hbody hscope) :)

/-- A loop over iterators says nothing if its first name does not. -/
theorem tacit_genericFor {name : Identifier} (hname : Reticent name) (start : Place) :
    (genericFor nested name start).Tacit := by
  refine (Tacit.many tacit_commaIdentifier).bind fun others hothers => .behind (unscoped_expect _) fun _ => ?_
  refine (tacit_expressionList hn).bind fun iterators hiterators => .behind (unscoped_expect _) fun _ => ?_
  refine tacit_openScope.bind fun _ _ => ?_
  refine (tacit_declareAll (reticent_cons.mpr ⟨hname, hothers⟩)).bind fun names hnames => ?_
  refine (tacit_loopBody hn).bind fun body hbody => tacit_closeScope.bind fun scope hscope => ?_
  refine .behind (unscoped_placed start) fun _ => .give ?_
  have hheader := congrArg₂ (Statement.genericFor · · · .none) hnames hiterators.expressions
  exact (congr hheader (reticent_block hbody hscope) :)

theorem tacit_forStatement (start : Place) : (forStatement nested start).Tacit :=
  tacit_identifier.bind fun _ hname => .behind (unscoped_consume _) fun _ =>
    .ite (tacit_numericFor hn hname start) (tacit_genericFor hn hname start)

/-! ## Declarations and assignments -/

/-- A function statement says nothing if its name does not. -/
theorem tacit_functionStatement {name : Option Expression} (hname : Reticent name) (isLocal isMethod : Bool)
    (start : Place) :
    (functionBody nested name isLocal isMethod start >>= fun function =>
      pure (Statement.functionStatement function)).Tacit :=
  (tacit_functionBody hn hname isLocal isMethod start).bind fun _ hfunction =>
    .give (congrArg Statement.functionStatement hfunction)

/-- A local function does not say that it is local. -/
theorem tacit_localFunction (start : Place) : (localFunction nested start).Tacit := by
  refine tacit_identifier.bind fun name hname => .behind (unscoped_recordLocal _) fun _ => ?_
  refine (tacit_declare hname).bind fun declared hdeclared => ?_
  exact tacit_functionStatement hn (reticent_some.mpr (reticent_nameExpression hdeclared)) true false start

/-- Local variables do not say that they are local. -/
theorem tacit_localVariables (start : Place) : (localVariables nested start).Tacit := by
  refine tacit_recordedDeclarator.bind fun first hfirst => ?_
  refine (Tacit.many tacit_commaDeclarator).bind fun others hothers => .behind (unscoped_consume _) fun _ => ?_
  have hdeclare {values : List Expression} (hvalues : Reticent values) :
      (declareVariables (first :: others) >>= fun names => placed start >>= fun placement =>
        pure (Statement.localStatement names values placement)).Tacit := by
    refine (tacit_declareVariables (reticent_cons.mpr ⟨hfirst, hothers⟩)).bind fun names hnames => ?_
    refine .behind (unscoped_placed start) fun _ => .give ?_
    exact congrArg₂ (Statement.localStatement · · .none) hnames hvalues.expressions
  refine .ite ?_ (hdeclare reticent_nil)
  exact (tacit_expressionList hn).bind fun values hvalues => hdeclare hvalues

theorem tacit_localStatement (start : Place) : (localStatement nested start).Tacit :=
  .behind (unscoped_consume _) fun _ => .ite (tacit_localFunction hn start) (tacit_localVariables hn start)

/-- A target says nothing of its names. -/
theorem tacit_target : (target nested).Tacit := by
  refine .behind unscoped_mark fun start => .behind unscoped_current fun _ => .ite ?_ ?_
  · refine tacit_resolved.bind fun name hname => ?_
    refine (Tacit.iterated (fun _ => tacit_suffixStep hn start) (reticent_nameExpression hname)).bind
      fun _ hplace => .give (congrArg (·, false) hplace)
  refine .behind (unscoped_consume _) fun _ => .ite ?_ .refuse
  refine (tacit_parenthesised hn).bind fun inner hinner => .behind unscoped_current fun token => ?_
  exact (Tacit.iterated (fun _ => tacit_suffixStep hn start) hinner).bind fun _ hplace =>
    .give (congrArg (·, !(startsSuffix token)) hplace)

theorem tacit_targetTurn : (targetTurn nested).Tacit := by
  refine (tacit_target hn).bind fun (place, bare) htarget => .ite .refuse ?_
  have hplace : Reticent place := (Prod.mk.inj htarget).1
  refine .behind (unscoped_consume _) fun _ => .ite (.give (congrArg Turn.more hplace)) ?_
  exact .give (congrArg Turn.last hplace)

/-- An assignment says nothing if its targets do not. -/
theorem tacit_assignedValues {targets : List Expression} (htargets : Reticent targets) (start : Place) :
    (assignedValues nested targets start).Tacit := by
  refine .behind (unscoped_expect _) fun _ => (tacit_expressionList hn).bind fun values hvalues => ?_
  refine .behind (unscoped_placed start) fun _ => .give ?_
  exact congrArg₂ (Statement.assignment · · .none) htargets.expressions hvalues.expressions

theorem tacit_assignmentOrCall (start : Place) : (assignmentOrCall nested start).Tacit := by
  refine (tacit_target hn).bind fun (first, bare) htarget => .behind (unscoped_at? _) fun _ => ?_
  have hfirst : Reticent first := (Prod.mk.inj htarget).1
  refine .ite ?_ (.ite .refuse (.ite ?_ ?_))
  · refine .behind (unscoped_placed start) fun _ => .give ?_
    exact congrArg (Statement.callStatement · .none) hfirst
  · refine .behind unscoped_advance fun _ => (Tacit.repeated (tacit_targetTurn hn)).bind fun others hothers => ?_
    exact tacit_assignedValues hn (reticent_cons.mpr ⟨hfirst, hothers⟩) start
  · exact tacit_assignedValues hn (reticent_cons.mpr ⟨hfirst, reticent_nil⟩) start

/-! ## Statements -/

/-- Whatever statement a keyword begins, it says nothing of its names. -/
theorem tacit_keywordStatement (start : Place) (word : ReservedWord) {rule : Rule Statement}
    (h : keywordStatement nested start word = some rule) : rule.Tacit := by
  cases word with
  | functionWord =>
    cases h
    refine tacit_functionName.bind fun (name, isMethod) hfound => ?_
    exact tacit_functionStatement hn (reticent_some.mpr (Prod.mk.inj hfound).1) false isMethod start
  | doWord =>
    cases h
    refine (tacit_scopedBlock hn false).bind fun body hbody => .behind (unscoped_expect _) fun _ => ?_
    exact .behind (unscoped_placed start) fun _ => .give (congrArg (Statement.doStatement · .none) hbody)
  | localWord =>
    cases h
    exact tacit_localStatement hn start
  | ifWord =>
    cases h
    exact tacit_ifStatement hn start
  | returnWord =>
    cases h
    exact tacit_returnStatement hn start
  | whileWord =>
    cases h
    exact tacit_whileStatement hn start
  | forWord =>
    cases h
    exact tacit_forStatement hn start
  | repeatWord =>
    cases h
    exact tacit_repeatStatement hn start
  | breakWord =>
    cases h
    exact tacit_breakStatement start
  | gotoWord =>
    cases h
    exact tacit_gotoStatement start
  | hstructureWord =>
    cases h
    exact tacit_structureDeclaration start
  | _ => cases h

theorem tacit_properStatement (start : Place) : (properStatement nested start).Tacit := by
  refine .behind unscoped_current fun token => ?_
  split
  · next word _ =>
    cases hrule : keywordStatement nested start word with
    | some rule => exact .behind unscoped_advance fun _ => tacit_keywordStatement hn start word hrule
    | none => exact tacit_assignmentOrCall hn start
  · refine .behind unscoped_atContextualGoto fun _ => .ite ?_ (tacit_assignmentOrCall hn start)
    exact .behind unscoped_advance fun _ => tacit_gotoStatement start

/-- Statements say nothing of their names. -/
theorem tacit_statement : (statement nested).Tacit := by
  refine .behind unscoped_mark fun start => .behind (unscoped_has _) fun _ => .behind (unscoped_at? _) fun _ => ?_
  refine .ite (.behind unscoped_advance fun _ => .some (tacit_labelStatement start)) ?_
  refine .behind (unscoped_has _) fun _ => .behind (unscoped_at? _) fun _ => .ite ?_ ?_
  · exact .behind unscoped_advance fun _ => .give rfl
  · exact .behind unscoped_goOn fun _ => .some (tacit_properStatement hn start)

theorem tacit_nestedStatement : (nestedStatement nested).Tacit := by
  refine (tacit_statement hn).bind fun statement? hstatement => ?_
  cases statement? with
  | none => exact .give rfl
  | some statement => exact .behind (unscoped_complete _) fun _ => .give hstatement

omit hn in
/-- All levels of the grammar are tacit, by induction on the levels. -/
theorem tacit_levels (level : Nat) : (levels level).Tacit := by
  induction level with
  | zero => exact ⟨.complain _, fun _ => .complain _⟩
  | succ level ih => exact ⟨tacit_nestedStatement ih, tacit_operation ih⟩

/-! ## Chunks -/

omit hn

/-- Whether the body of a chunk says nothing of its names, and no globals are listed. -/
def Mute (chunk : Chunk) : Prop := Reticent chunk.body ∧ chunk.globals = none

/-- Where scopes are switched off no names are taken out. -/
theorem takeUnresolved_mute {scope : Scope} (hoff : scope.enabled = false) :
    takeUnresolved.Leads (fun s => s.scope = scope) fun names s => names = none ∧ s.scope = scope := by
  intro context s v s' hs hrun
  simp only [takeUnresolved, state, Rule.modify, Bind.bind, Pure.pure, andThen, give, hs,
    Scope.takeUnresolved, hoff, Bool.false_eq_true, if_false] at hrun
  cases hrun
  exact ⟨rfl, rfl⟩

/-- Where scopes are switched off the body of a chunk says nothing of its names. -/
theorem chunkBody_mute (limit : Nat) {scope : Scope} (hoff : scope.enabled = false) :
    (chunkBody (levels limit)).Leads (fun s => s.scope = scope) fun chunk _ => Mute chunk := by
  refine (unscoped_mark scope).bind fun start => (tacit_openScope scope hoff).bindKnown fun _ _ => ?_
  refine (unscoped_openBlock false scope).bind fun _ => ?_
  refine (tacit_statements (tacit_levels limit) scope hoff).bindKnown fun body hbody => ?_
  refine (unscoped_closeBlock scope).bind fun _ => (tacit_closeScope scope hoff).bindKnown fun names hnames => ?_
  have hrest : (placed start >>= fun placement => takeUnresolved >>= fun globals =>
      state >>= fun s => context >>= fun context =>
        complete (.chunk ⟨.mk body names, if context.options.collectComments then some s.comments else none,
          globals, placement⟩) >>= fun _ =>
        pure (Chunk.mk (.mk body names) (if context.options.collectComments then some s.comments else none)
          globals placement)).Leads
      (fun s => s.scope = scope) fun chunk _ => Mute chunk := by
    refine (unscoped_placed start scope).bind fun placement => ?_
    refine (takeUnresolved_mute hoff).bindKnown fun globals hglobals => ?_
    refine (unscoped_state scope).bind fun s => (unscoped_context scope).bind fun context => ?_
    exact (unscoped_complete _ scope).bind fun _ => .give fun _ _ => ⟨reticent_block hbody hnames, hglobals⟩
  refine (unscoped_current scope).bind fun token => .ite (fun _ => .refuse_bind) fun _ => ?_
  refine .branch _ (fun _ => unscoped_modify ?_ _) (fun _ _ hs => hs) hrest
  exact fun _ => rfl

/-- Where scopes are switched off a chunk says nothing of its names. -/
theorem chunk_mute (limit : Nat) {scope : Scope} (hoff : scope.enabled = false) :
    (chunkOver (levels limit)).Leads (fun s => s.scope = scope) fun chunk _ => Mute chunk :=
  (unscoped_advance scope).bind fun _ => (unscoped_advance scope).bind fun _ => chunkBody_mute limit hoff

end Grammar

/-- Where scopes are not tracked, nothing but places is added to what was written. -/
theorem mute_of_parse {options : ParseOptions} {source : Text} {chunk : Chunk}
    (h : options.trackScopes = false) (hparse : parse options source = .ok chunk) : Grammar.Mute chunk :=
  Grammar.chunk_mute Grammar.nestingLimit h _ (Grammar.State.initial options (Lexer.feed options source)) chunk _
    rfl (Prod.ext ((Grammar.result_run ..).symm.trans hparse) rfl)

end LuaSyntax
