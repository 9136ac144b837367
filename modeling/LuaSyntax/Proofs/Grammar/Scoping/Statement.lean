import LuaSyntax.Proofs.Grammar.Depth.Levels
import LuaSyntax.Proofs.Grammar.Levels
import LuaSyntax.Grammar.Statement
import LuaSyntax.Proofs.Grammar.Scoping.Expression
import LuaSyntax.Parse

/-!
# Scopes of statements and chunks

A statement is read in the frame of its block. What is in it sees the names in force before it, and
what it declares is in the frame behind it, which is the moment from which a name is in force. The
rules declare at different moments; `State.Within` says for each of them that it is the right one.

What nests no deeper than a number of levels is read by rules that resolve it, by induction on the
number of levels. A chunk is read where no name is in force, and what its record of globals has come
to are its free names, each at its first use. So a parse that tracks scopes finds out of every name
what lexical scoping says of it.
-/

namespace LuaSyntax

namespace Grammar

open Rule

variable {frames : List (List Binding)} {frame : List Binding} {known : List Identifier}

/-- A rule that resolves the statement it reads and declares what the statement declares. -/
def Rule.ResolvesStatement (r : Rule Statement) : Prop := ∀ frame frames known,
  r.Leads (State.Scoped (frame :: frames) known) fun v => State.Within frame frames known [v]

/-! ## Jumps -/

/-- A label has no names to resolve. -/
theorem labelStatement_resolves (start : Place) : (labelStatement start).ResolvesStatement := by
  intro frame frames known
  refine unscoped_current.leads fun token => leads_identifier fun label hlabel => ?_
  refine (unscoped_expect _).leads fun _ => unscoped_state.leads fun _ => ?_
  refine (unscoped_checked _).leads fun jumps => (unscoped_setJumps jumps).leads fun _ => ?_
  exact (unscoped_placed start).leads fun _ => .plainStatement (resolved_label hlabel) rfl rfl

/-- A `goto` has no names to resolve. -/
theorem gotoStatement_resolves (start : Place) : (gotoStatement start).ResolvesStatement := by
  intro frame frames known
  refine unscoped_state.leads fun _ => leads_identifier fun label hlabel => ?_
  refine unscoped_state.leads fun _ => (unscoped_setJumps _).leads fun _ => ?_
  exact (unscoped_placed start).leads fun _ => .plainStatement (resolved_goto hlabel) rfl rfl

/-- A `break` has no names to resolve. -/
theorem breakStatement_resolves (start : Place) : (breakStatement start).ResolvesStatement := by
  intro frame frames known
  refine unscoped_state.leads fun _ => .ite (fun _ => ?_) fun _ => .complain _
  exact (unscoped_placed start).leads fun _ => .plainStatement resolved_break rfl rfl

/-! ## Leaves of declarations -/

/-- A name behind a comma is not declared yet. -/
theorem unscoped_commaIdentifier : commaIdentifier.Unscoped :=
  (unscoped_consume _).bind fun _ => .ite (unscoped_identifier.bind fun _ => .give _) (.give _)

/-- A declared name is recorded with the jumps before it comes into force. -/
theorem recordedDeclarator_leads {scope : Scope} :
    recordedDeclarator.Leads (fun s => s.scope = scope) fun name s =>
      name.erase .resolution = name ∧ s.scope = scope :=
  declarator_leads.bindKnown fun _ hname => (unscoped_recordLocal _ scope).bind fun _ =>
    .give fun _ hs => ⟨hname, hs⟩

/-- A declared name behind a comma does not come into force yet. -/
theorem commaDeclarator_leads {scope : Scope} :
    commaDeclarator.Leads (fun s => s.scope = scope) fun v s =>
      (∀ name ∈ v.toList, name.erase .resolution = name) ∧ s.scope = scope := by
  refine (unscoped_consume _ scope).bind fun _ => .ite (fun _ => ?_) fun _ => ?_
  · refine recordedDeclarator_leads.bindKnown fun name hname => .give fun _ hs => ⟨?_, hs⟩
    exact List.forall_mem_singleton.mpr hname
  · exact .give fun _ hs => ⟨List.forall_mem_nil _, hs⟩

/-- Variables come into force in their order, all behind their values. -/
theorem declareVariables_leads (names : List Declarator) :
    (declareVariables names).Leads (State.Scoped (frame :: frames) known) fun declared s =>
      declared = names.map Declarator.declared ∧
        s.Scoped ((frame ++ names.map fun name => name.identifier.binding) :: frames) known := by
  induction names generalizing frame with
  | nil =>
    apply Leads.give
    intro s hs
    rw [List.map_nil, List.map_nil, List.append_nil]
    exact ⟨rfl, hs⟩
  | cons name rest ih =>
    refine (declare_leads name.identifier).bindKnown fun declared hdeclared => ?_
    refine ih.bindKnown fun others hothers => Leads.give fun s hs => ?_
    subst hdeclared hothers
    rw [List.append_assoc] at hs
    exact ⟨rfl, hs⟩

/-- Names declare the same when they are declared. -/
theorem map_binding_declared (names : List Declarator) :
    ((names.map Declarator.declared).map fun name => name.identifier.binding) =
      names.map fun name => name.identifier.binding := by
  rw [List.map_map]
  apply List.map_congr_left
  intro name _
  cases name <;> rfl

/-- A clause is resolved if its parts are. -/
theorem clauseCompleted_leads {clause : Clause} {noting : List Identifier}
    (h : Resolved (visible frames) clause) (hfree : noted known (free clause) = noting) :
    (clauseCompleted clause).Leads (State.Scoped frames noting) (State.Behind frames known) :=
  (unscoped_complete _).leads fun _ => .resolved h hfree

/-- The names in a structure are no variables. -/
theorem structureEntry_leads {scope : Scope} :
    structureEntry.Leads (fun s => s.scope = scope) fun v s =>
      (∀ entry ∈ v.toList, entry.erase .resolution = entry) ∧ s.scope = scope := by
  refine (unscoped_at? _ scope).bind fun _ => .ite (fun _ => ?_) fun _ => ?_
  · exact .give fun _ hs => ⟨List.forall_mem_nil _, hs⟩
  refine (unscoped_mark scope).bind fun start => identifier_leads.bindKnown fun key hkey => ?_
  refine (unscoped_expect _ scope).bind fun _ => identifier_leads.bindKnown fun type htype => ?_
  refine (unscoped_placed start scope).bind fun placement => ?_
  refine (unscoped_complete _ scope).bind fun _ => ?_
  have hentry : StructureEntry.erase .resolution ⟨key, type, placement⟩ = ⟨key, type, placement⟩ :=
    congrArg₂ (fun key type => StructureEntry.mk key type placement) hkey htype
  have hgive : (pure (some ⟨key, type, placement⟩) : Rule (Option StructureEntry)).Leads
      (fun s => s.scope = scope) fun v s =>
        (∀ entry ∈ v.toList, entry.erase .resolution = entry) ∧ s.scope = scope :=
    .give fun _ hs => ⟨List.forall_mem_singleton.mpr hentry, hs⟩
  refine (unscoped_consume _ scope).bind fun _ => .ite (fun _ => ?_) fun _ => hgive
  exact (unscoped_consume _ scope).bind fun _ => hgive

/-- The declaration of a structure has no names to resolve. -/
theorem structureDeclaration_resolves (start : Place) :
    (structureDeclaration start).ResolvesStatement := by
  intro frame frames known
  refine leads_identifier fun name hname => ?_
  refine (Leads.many_forall structureEntry_leads).bindKnown fun fields hfields => ?_
  refine (unscoped_expect _).leads fun _ => (unscoped_placed start).leads fun _ => ?_
  exact .plainStatement (resolved_structure hname hfields) rfl rfl

section

variable {nested : Nested} (hn : nested.Resolves)

include hn

/-! ## Conditions and loops -/

/-- What is returned is resolved where the `return` stands. -/
theorem returnStatement_resolves (start : Place) :
    (returnStatement nested start).ResolvesStatement := by
  intro frame frames known
  refine unscoped_current.leads fun token => .ite (fun _ => ?_) fun _ => ?_
  · refine (unscoped_placed start).leads fun _ => ?_
    exact .plainStatement (resolved_return resolved_nil) rfl rfl
  refine (optionalList_resolves hn).leads fun arguments harguments => ?_
  refine (unscoped_consume _).leads fun _ => (unscoped_placed start).leads fun _ => ?_
  exact .plainStatement (resolved_return harguments) rfl (congrArg (noted known) (free_return arguments))

/-- A further condition is resolved where it stands, its body in a frame of its own. -/
theorem elseifClause_resolves : (elseifClause nested).Resolves := by
  intro frames known
  refine unscoped_mark.leads fun start => (unscoped_consume _).leads fun _ => ?_
  refine .ite (fun _ => ?_) fun _ => .resolved resolved_none rfl
  refine (expression_resolves hn).leads fun condition hcondition => ?_
  refine (unscoped_expect _).leads fun _ => ?_
  refine (scopedBlock_leads hn false).bindKnown fun body hbody => ?_
  refine (unscoped_placed start).leads fun _ => ?_
  refine (clauseCompleted_leads (resolved_elseifClause hcondition hbody) (noted_append _ _ _)).bind
    fun _ => .give fun _ hs => ⟨resolved_some.mpr hs.1, hs.2⟩

/-- What is done otherwise is resolved in a frame of its own. -/
theorem elseClause_resolves : (elseClause nested).Resolves := by
  intro frames known
  refine unscoped_mark.leads fun start => (unscoped_consume _).leads fun _ => ?_
  refine .ite (fun _ => ?_) fun _ => .resolved resolved_nil rfl
  refine (scopedBlock_leads hn false).bindKnown fun body hbody => ?_
  refine (unscoped_placed start).leads fun _ => ?_
  refine Leads.bindKnown (clauseCompleted_leads (resolved_elseClause hbody) rfl) fun clause hclause => ?_
  exact .resolved (resolved_singleton hclause) (congrArg (noted known) (free_singleton clause))

/-- The clauses of a conditional statement are resolved where it stands. -/
theorem ifStatement_resolves (start : Place) : (ifStatement nested start).ResolvesStatement := by
  intro frame frames known
  refine (expression_resolves hn).leads fun condition hcondition => ?_
  refine (unscoped_expect _).leads fun _ => ?_
  refine (scopedBlock_leads hn false).bindKnown fun body hbody => ?_
  refine (unscoped_placed start).leads fun _ => ?_
  refine Leads.bindKnown (clauseCompleted_leads (resolved_ifClause hcondition hbody)
    (noted_append _ _ _)) fun first hfirst => ?_
  refine (elseifClause_resolves hn).many.leads fun others hothers => ?_
  refine (elseClause_resolves hn).leads fun last hlast => (unscoped_expect _).leads fun _ => ?_
  refine (unscoped_placed start).leads fun _ => .plainStatement (resolved_if ?_) rfl ?_
  · exact resolved_append.mpr ⟨resolved_cons.mpr ⟨hfirst, hothers⟩, hlast⟩
  · rw [free_if, free_append, noted_append]
    exact congrArg (noted · (free last)) (noted_append _ _ _)

/-- The condition of a loop is resolved outside of its body. -/
theorem whileStatement_resolves (start : Place) : (whileStatement nested start).ResolvesStatement := by
  intro frame frames known
  refine (expression_resolves hn).leads fun condition hcondition => ?_
  refine (unscoped_expect _).leads fun _ => ?_
  refine (scopedBlock_leads hn true).bindKnown fun body hbody => ?_
  refine (unscoped_expect _).leads fun _ => ?_
  refine (unscoped_placed start).leads fun _ => ?_
  exact .plainStatement (resolved_while hcondition hbody) rfl (noted_append _ _ _)

/-- The scope of the body is open still when the condition is read. -/
theorem repeatStatement_resolves (start : Place) :
    (repeatStatement nested start).ResolvesStatement := by
  intro frame frames known
  refine openScope_leads.bind fun _ => (unscoped_openBlock true).leads fun _ => ?_
  refine (statements_leads hn).bindKnown fun body hrow => (unscoped_expect _).leads fun _ => ?_
  refine unscoped_goOn.leads fun _ => (expression_resolves hn).leads fun condition hcondition => ?_
  refine unscoped_closeBlock.leads fun _ => closeScope_leads.bindKnown fun scope hscope => ?_
  subst hscope
  refine (unscoped_placed start).leads fun _ => .plainStatement ?_ rfl ?_
  · exact resolved_repeat (resolved_block hrow) hcondition
  · rw [← free_block body none]
    exact noted_append _ _ _

/-- The body of a loop has no frame of its own: its names are in that of the counter. -/
theorem loopBody_leads : (loopBody nested).Leads (State.Scoped (frame :: frames) known)
    (State.Within frame frames known) := by
  refine (unscoped_openBlock true).leads fun _ => ?_
  refine (statements_leads hn).bindKnown fun body hrow => ?_
  refine unscoped_closeBlock.leads fun _ => (unscoped_expect _).leads fun _ => ?_
  exact .give fun _ hs => ⟨hrow, hs⟩

/-- The scope of the body is opened behind the header. -/
theorem numericFor_resolves (counter : Identifier) (start : Place) :
    (numericFor nested counter start).ResolvesStatement := by
  intro frame frames known
  refine (expression_resolves hn).leads fun first hfirst => (unscoped_expect _).leads fun _ => ?_
  refine (expression_resolves hn).leads fun last hlast => ?_
  refine (commaExpression_resolves hn).leads fun step hstep => (unscoped_expect _).leads fun _ => ?_
  refine openScope_leads.bind fun _ => ?_
  refine (declare_leads counter).bindKnown fun declared hdeclared => ?_
  refine (loopBody_leads hn).bindKnown fun body hrow => ?_
  refine closeScope_leads.bindKnown fun scope hscope => ?_
  subst hdeclared hscope
  refine (unscoped_placed start).leads fun _ => .plainStatement ?_ rfl ?_
  · exact resolved_numericFor hfirst hlast hstep (resolved_block hrow)
  · rw [free_numericFor, free_block, noted_append, noted_append, noted_append]

/-- The scope of the body is opened behind the header. -/
theorem genericFor_resolves (name : Identifier) (start : Place) :
    (genericFor nested name start).ResolvesStatement := by
  intro frame frames known
  refine (Unscoped.many unscoped_commaIdentifier).leads fun others => ?_
  refine (unscoped_expect _).leads fun _ => ?_
  refine (expressionList_resolves hn).leads fun iterators hiterators => ?_
  refine (unscoped_expect _).leads fun _ => openScope_leads.bind fun _ => ?_
  refine (declareAll_leads _).bindKnown fun declared hdeclared => ?_
  refine (loopBody_leads hn).bindKnown fun body hrow => ?_
  refine closeScope_leads.bindKnown fun scope hscope => ?_
  subst hdeclared hscope
  refine (unscoped_placed start).leads fun _ => .plainStatement ?_ rfl ?_
  · exact resolved_genericFor hiterators (resolved_block hrow)
  · rw [free_genericFor, free_block, noted_append]

/-- The bounds and the iterators of a loop are resolved before its names come into force. -/
theorem forStatement_resolves (start : Place) : (forStatement nested start).ResolvesStatement := by
  intro frame frames known
  refine unscoped_identifier.leads fun name => (unscoped_consume _).leads fun _ => ?_
  refine .ite (fun _ => ?_) fun _ => ?_
  · exact numericFor_resolves hn name start frame frames known
  · exact genericFor_resolves hn name start frame frames known

/-! ## Declarations -/

/-- The name of a local function is declared before its parameters are read. -/
theorem localFunction_resolves (start : Place) : (localFunction nested start).ResolvesStatement := by
  intro frame frames known
  refine unscoped_identifier.leads fun name => (unscoped_recordLocal _).leads fun _ => ?_
  refine (declare_leads name).bindKnown fun declared hdeclared => ?_
  subst hdeclared
  have hvisible : visible ((frame ++ [name.binding]) :: frames) name.name = true := by
    rw [visible_append]
    simp [Environment.declare, Identifier.binding]
  have hname : Resolved (visible ((frame ++ [name.binding]) :: frames))
      (some (Expression.identifier name.declared)) :=
    resolved_some.mpr (resolved_name hvisible)
  have hbody : (functionBody nested (some (.identifier name.declared)) true false start).Leads
      (State.Scoped ((frame ++ [name.binding]) :: frames) known) fun function s =>
        function.bindings = [name.binding] ∧
          s.Behind ((frame ++ [name.binding]) :: frames) known function :=
    functionBody_leads hn true start hname rfl
  refine hbody.bind fun function => .of_known fun hbindings => .behind fun hfunction => ?_
  rw [← hbindings, visible_append] at hfunction
  have hstatement : Resolved (visible (frame :: frames)) (Statement.functionStatement function) :=
    resolved_functionStatement hfunction
  have hdeclared : (Statement.functionStatement function).bindings = [name.binding] := hbindings
  rw [← hdeclared]
  exact .statement hstatement rfl

/-- Variables are declared behind their values. -/
theorem localVariables_resolves (start : Place) :
    (localVariables nested start).ResolvesStatement := by
  intro frame frames known
  refine recordedDeclarator_leads.bindKnown fun first hfirst => ?_
  refine (Leads.many_forall commaDeclarator_leads).bindKnown fun others hothers => ?_
  refine (unscoped_consume _).leads fun _ => ?_
  have hnames : ∀ name ∈ first :: others, name.erase .resolution = name :=
    List.forall_mem_cons.mpr ⟨hfirst, hothers⟩
  have hdeclare {values : List Expression} (hvalues : Resolved (visible (frame :: frames)) values) :
      (declareVariables (first :: others) >>= fun names => placed start >>= fun placement =>
        pure (Statement.localStatement names values placement)).Leads
      (State.Scoped (frame :: frames) (noted known (free values))) fun v =>
        State.Within frame frames known [v] := by
    refine (declareVariables_leads _).bindKnown fun declared hdeclared => ?_
    subst hdeclared
    rw [← map_binding_declared]
    refine (unscoped_placed start).leads fun placement => ?_
    exact .statement (resolved_local hnames hvalues) (congrArg (noted known) (free_local _ values))
  refine .ite (fun _ => ?_) fun _ => ?_
  · exact (expressionList_resolves hn).leads fun values hvalues => hdeclare hvalues
  · exact hdeclare resolved_nil

/-- The values of a local statement do not see its names; a local function sees itself. -/
theorem localStatement_resolves (start : Place) : (localStatement nested start).ResolvesStatement :=
  fun frame frames known => (unscoped_consume _).leads fun _ =>
    .ite (fun _ => localFunction_resolves hn start frame frames known)
      fun _ => localVariables_resolves hn start frame frames known

/-! ## Assignments and calls -/

/-- A target is resolved, not declared. -/
theorem target_leads : (target nested).Leads (State.Scoped frames known) fun v =>
    State.Behind frames known v.1 := by
  refine unscoped_mark.leads fun start => unscoped_current.leads fun _ => ?_
  refine .ite (fun _ => ?_) fun _ => ?_
  · refine resolved_leads.bind fun name => .behind fun hname => ?_
    exact Leads.bind (.iterated_behind (suffixStep_leads hn start) hname) fun _ => .give fun _ hs => hs
  refine (unscoped_consume _).leads fun _ => .ite (fun _ => ?_) fun _ => .refuse
  refine (parenthesised_resolves hn).leads fun inner hinner => unscoped_current.leads fun _ => ?_
  exact Leads.bind (.iterated_behind (suffixStep_leads hn start) hinner) fun _ => .give fun _ hs => hs

/-- Targets are resolved from left to right. -/
theorem targetTurn_resolves : (targetTurn nested).Resolves := by
  intro frames known
  refine (target_leads hn).bind fun (place, bare) => .behind fun hplace => ?_
  refine .ite (fun _ => .refuse) fun _ => (unscoped_consume _).leads fun _ => ?_
  refine .ite (fun _ => ?_) fun _ => ?_
  · exact .turn rfl hplace rfl
  · exact .turn rfl hplace rfl

/-- Values are resolved behind the targets. -/
theorem assignedValues_leads {targets : List Expression}
    (htargets : Resolved (visible (frame :: frames)) targets) (start : Place) :
    (assignedValues nested targets start).Leads
      (State.Scoped (frame :: frames) (noted known (free targets))) fun v =>
        State.Within frame frames known [v] := by
  refine (unscoped_expect _).leads fun _ => ?_
  refine (expressionList_resolves hn).leads fun values hvalues => ?_
  refine (unscoped_placed start).leads fun _ => .plainStatement ?_ rfl ?_
  · exact resolved_assignment htargets hvalues
  · rw [free_assignment, noted_append]

/-- An assignment or a call declares nothing. -/
theorem assignmentOrCall_resolves (start : Place) :
    (assignmentOrCall nested start).ResolvesStatement := by
  intro frame frames known
  refine (target_leads hn).bind fun (first, bare) => .behind fun hfirst => ?_
  refine (unscoped_at? _).leads fun _ => .ite (fun _ => ?_) fun _ => .ite (fun _ => .refuse) fun _ => ?_
  · refine (unscoped_placed start).leads fun _ => ?_
    exact .plainStatement (resolved_callStatement hfirst) rfl rfl
  refine .ite (fun _ => ?_) fun _ => ?_
  · refine unscoped_advance.leads fun _ => ?_
    refine (targetTurn_resolves hn).repeated.leads fun others hothers => ?_
    show Leads _ (State.Scoped (frame :: frames) (noted (noted known (free first)) (free others))) _
    rw [← noted_append]
    exact assignedValues_leads hn (resolved_cons.mpr ⟨hfirst, hothers⟩) start
  · show Leads _ (State.Scoped (frame :: frames) (noted known (free first))) _
    rw [← free_singleton first]
    exact assignedValues_leads hn (resolved_singleton hfirst) start

/-! ## Statements -/

omit hn in
/-- To look for a `goto` that is no keyword leaves the scope alone. -/
theorem unscoped_atContextualGoto : atContextualGoto.Unscoped :=
  unscoped_state.bind fun _ => (unscoped_has _).bind fun _ => .give _

/-- Whatever statement a keyword begins, it is resolved. -/
theorem keywordStatement_resolves (start : Place) (word : ReservedWord) {rule : Rule Statement}
    (h : keywordStatement nested start word = some rule) : rule.ResolvesStatement := by
  cases word with
  | functionWord =>
    cases h
    intro frame frames known
    refine functionName_leads.bind fun (name, isMethod) => .of_known fun hreceiver => ?_
    apply Leads.behind
    intro hname
    refine (functionBody_leads hn false start (resolved_some.mpr hname) hreceiver).bind
      fun function => .of_known fun hbindings => .behind fun hfunction => ?_
    have hnone := hbindings.trans (functionBindings_false _)
    refine .plainStatement (resolved_functionStatement ?_) hnone rfl
    rwa [hnone]
  | doWord =>
    cases h
    intro frame frames known
    refine (scopedBlock_leads hn false).bindKnown fun body hbody => ?_
    refine (unscoped_expect _).leads fun _ => ?_
    exact (unscoped_placed start).leads fun _ => .plainStatement (resolved_do hbody) rfl rfl
  | localWord =>
    cases h
    exact localStatement_resolves hn start
  | ifWord =>
    cases h
    exact ifStatement_resolves hn start
  | returnWord =>
    cases h
    exact returnStatement_resolves hn start
  | whileWord =>
    cases h
    exact whileStatement_resolves hn start
  | forWord =>
    cases h
    exact forStatement_resolves hn start
  | repeatWord =>
    cases h
    exact repeatStatement_resolves hn start
  | breakWord =>
    cases h
    exact breakStatement_resolves start
  | gotoWord =>
    cases h
    exact gotoStatement_resolves start
  | hstructureWord =>
    cases h
    exact structureDeclaration_resolves start
  | _ => cases h

/-- Every statement that is not empty is resolved. -/
theorem properStatement_resolves (start : Place) :
    (properStatement nested start).ResolvesStatement := by
  intro frame frames known
  refine unscoped_current.leads fun token => ?_
  split
  · next word _ =>
    cases hrule : keywordStatement nested start word with
    | some rule =>
      exact unscoped_advance.leads fun _ =>
        keywordStatement_resolves hn start word hrule frame frames known
    | none => exact assignmentOrCall_resolves hn start frame frames known
  · refine unscoped_atContextualGoto.leads fun _ => .ite (fun _ => ?_) fun _ => ?_
    · exact unscoped_advance.leads fun _ => gotoStatement_resolves start frame frames known
    · exact assignmentOrCall_resolves hn start frame frames known

/-- Every statement is resolved in the frame before it, and its declarations are in the frame behind it. -/
theorem statement_leads : (statement nested).Leads (State.Scoped (frame :: frames) known) fun v =>
    State.Within frame frames known v.toList := by
  refine unscoped_mark.leads fun start => (unscoped_has _).leads fun _ => ?_
  refine (unscoped_at? _).leads fun _ => ?_
  refine .ite (fun _ => unscoped_advance.leads fun _ => ?_) fun _ => ?_
  · exact (labelStatement_resolves start frame frames known).bind fun _ => .give fun _ hs => hs
  refine (unscoped_has _).leads fun _ => (unscoped_at? _).leads fun _ => ?_
  refine .ite (fun _ => ?_) fun _ => ?_
  · exact unscoped_advance.leads fun _ => .give fun _ hs => .nil hs
  refine unscoped_goOn.leads fun _ => ?_
  exact (properStatement_resolves hn start frame frames known).bind fun _ => .give fun _ hs => hs

end

/-! ## Chunks -/

/-! ### Levels -/

/-- A statement of the next level is resolved. -/
theorem nestedStatement_leads {nested : Nested} (hn : nested.Resolves) {frame : List Binding}
    {frames : List (List Binding)} {known : List Identifier} :
    (nestedStatement nested).Leads (State.Scoped (frame :: frames) known) fun v =>
      State.Within frame frames known v.toList := by
  refine (statement_leads hn).bind fun found => ?_
  cases found with
  | none => exact .give fun _ hs => hs
  | some statement =>
    exact .of_known fun hrow => (unscoped_complete _).leads fun _ => .give fun _ hs => ⟨hrow, hs⟩

/-- All levels of the grammar resolve what they read, by induction on the levels. -/
theorem resolves_levels (level : Nat) : (levels level).Resolves := by
  induction level with
  | zero => exact ⟨fun _ _ _ => .complain _, fun _ _ _ => .complain _⟩
  | succ level ih => exact ⟨fun _ _ _ => nestedStatement_leads ih, operation_resolves ih⟩

/-! ### Chunks -/

/-- The names without a declaration are taken out in the order in which they were noted. -/
theorem takeUnresolved_leads {frames : List (List Binding)} {known : List Identifier} :
    takeUnresolved.Leads (State.Scoped frames known) fun names s =>
      names = some known ∧ s.Scoped frames [] := by
  intro context s v s' hs hrun
  unfold State.Scoped at hs ⊢
  simp only [takeUnresolved, state, Rule.modify, Bind.bind, Pure.pure, andThen, give, hs,
    Scope.takeUnresolved, if_true] at hrun
  cases hrun
  exact ⟨rfl, rfl⟩

/-- A chunk is resolved if its body is, where nothing is in force, and lists the free names. -/
theorem resolve_forget_mk {body : Block} {comments : Option (List Comment)} {placement : Placement}
    (hbody : ResolvedBody .empty [] body) :
    (Chunk.mk body comments (some (noted [] body.free)) placement).forget.resolve =
      ⟨body, comments, some (noted [] body.free), placement⟩ :=
  congrArg (fun body => Chunk.mk body comments (some (noted [] body.free)) placement) hbody

/-- The body of a chunk is resolved as lexical scoping says. -/
theorem chunkBody_leads (limit : Nat) :
    (chunkBody (levels limit)).Leads (State.Scoped [] []) fun chunk _ => chunk.forget.resolve = chunk := by
  refine unscoped_mark.leads fun start => openScope_leads.bind fun _ => ?_
  refine (unscoped_openBlock false).leads fun _ => ?_
  refine (statements_leads (resolves_levels limit)).bindKnown fun body hrow => ?_
  refine unscoped_closeBlock.leads fun _ => closeScope_leads.bindKnown fun scope hscope => ?_
  subst hscope
  have hbody := resolved_block hrow
  have hrest : (placed start >>= fun placement => takeUnresolved >>= fun globals =>
      state >>= fun s => context >>= fun context =>
        complete (.chunk ⟨.mk body (some ([] ++ body.flatMap Statement.bindings)),
          if context.options.collectComments then some s.comments else none, globals,
          placement⟩) >>= fun _ =>
        pure (Chunk.mk (.mk body (some ([] ++ body.flatMap Statement.bindings)))
          (if context.options.collectComments then some s.comments else none) globals
          placement)).Leads
      (State.Scoped [] (noted [] (free body))) fun chunk _ => chunk.forget.resolve = chunk := by
    refine (unscoped_placed start).leads fun placement => ?_
    refine takeUnresolved_leads.bindKnown fun globals hglobals => ?_
    subst hglobals
    refine unscoped_state.leads fun s => unscoped_context.leads fun context => ?_
    refine (unscoped_complete _).leads fun _ => .give fun _ _ => ?_
    rw [← free_block body (some ([] ++ body.flatMap Statement.bindings))]
    exact resolve_forget_mk hbody
  refine unscoped_current.leads fun token => .ite (fun _ => .refuse_bind) fun _ => ?_
  refine .branch _ (fun _ => unscoped_modify ?_ _) (fun _ _ hs => hs) hrest
  exact fun _ => rfl

/-- A chunk is resolved as lexical scoping says. -/
theorem chunk_leads (limit : Nat) :
    (chunkOver (levels limit)).Leads (State.Scoped [] []) fun chunk _ => chunk.forget.resolve = chunk :=
  unscoped_advance.leads fun _ => unscoped_advance.leads fun _ => chunkBody_leads limit

end Grammar

/-- A parse that tracks scopes says of every name in a chunk what lexical scoping says of it. -/
theorem resolve_forget {options : ParseOptions} {source : Text} {chunk : Chunk}
    (h : options.trackScopes = true) (hparse : parse options source = .ok chunk) :
    chunk.forget.resolve = chunk := by
  have hscope : (Grammar.State.initial options (Lexer.feed options source)).Scoped [] [] :=
    congrArg (fun enabled => ({ enabled } : Scope)) h
  have hrun := (Grammar.result_run options source (Lexer.feed options source)).symm.trans hparse
  exact Grammar.chunk_leads Grammar.nestingLimit _ _ chunk _ hscope (Prod.ext hrun rfl)

/-- The value of a local is a use of what the name denoted before, a method has a receiver, and the
condition of a `repeat` sees the locals of the body. -/
theorem resolve_forget_shadowed : ∃ chunk,
    parse { trackScopes := true } ("local x = x function t:m(y) return self, x, z end " ++
      "repeat local y = t until y and z").toList = .ok chunk ∧
    chunk.forget.resolve = chunk ∧
    (chunk.globals.map fun names => names.map Identifier.name) = some ["x", "t", "z"] := by
  have hnames : ((parse { trackScopes := true }
      ("local x = x function t:m(y) return self, x, z end " ++
        "repeat local y = t until y and z").toList).toOption.map fun chunk =>
      chunk.globals.map fun names => names.map Identifier.name) = some (some ["x", "t", "z"]) := by
    decide +kernel
  cases hparse : parse { trackScopes := true }
      ("local x = x function t:m(y) return self, x, z end " ++
        "repeat local y = t until y and z").toList with
  | error error =>
    rw [hparse] at hnames
    cases hnames
  | ok chunk =>
    rw [hparse] at hnames
    exact ⟨chunk, rfl, resolve_forget rfl hparse, Option.some.inj hnames⟩

end LuaSyntax
