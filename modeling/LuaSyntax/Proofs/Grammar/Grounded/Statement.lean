import LuaSyntax.Grammar.Statement
import LuaSyntax.Proofs.Grammar.Grounded.Expression
import LuaSyntax.Proofs.Grammar.Lockstep.Statement

/-!
# Statements on a ground

A statement begins at a token that it takes, be it a keyword or the beginning of its first operand, and
the rules below are those behind it. A `goto` is blamed on its keyword, which was taken just before.
-/

namespace LuaSyntax

/-- A word that is a keyword before a name only stands for a jump to a label all the same. -/
theorem Dialect.has_labels_of_contextualGoto {dialect : Dialect}
    (h : dialect.has .contextualGoto = true) : dialect.has .labels = true := by
  cases dialect with
  | luaJit => rfl
  | _ => exact absurd h (by decide)

namespace Grammar

open Rule

variable {g : Ground} {base : State → Prop} {start : Place} {nested : Nested}

/-! ## Jumps -/

/-- A label is known where the dialect has labels. -/
theorem labelStatement_builds (hfeature : g.demands.feature .labels) :
    (labelStatement start).Builds g (State.Begun g start) fun v => v.Meets g.demands := by
  refine .current fun token htoken => identifier_builds.bind fun label hlabel => ?_
  refine (Builds.expect _).bind fun _ _ => .read fun s hs _ => ?_
  refine (checked_builds (hs.jumps.addLabel label.name htoken)).bind fun jumps hjumps => ?_
  refine (setJumps_builds hjumps).bind fun _ _ => Builds.placed.bind fun _ hplacement => ?_
  exact .give ⟨hfeature, hlabel, hplacement⟩

/-- A `goto` is known where the dialect has labels. -/
theorem gotoStatement_builds (hfeature : g.demands.feature .labels) :
    (gotoStatement start).Builds g (State.Begun g start) fun v => v.Meets g.demands := by
  refine .read fun s _ hbegun => identifier_builds.bind fun label hlabel => .read fun t ht _ => ?_
  have hjumps := ht.jumps.addGoto label.name hbegun.previous
  refine (setJumps_builds hjumps).bind fun _ _ => Builds.placed.bind fun _ hplacement => ?_
  exact .give ⟨hfeature, hlabel, hplacement⟩

/-- A `break` is known, if it is not refused. -/
theorem breakStatement_builds : (breakStatement start).Builds g (State.Begun g start)
    fun v => v.Meets g.demands :=
  .read fun _ _ _ => .ite (fun _ => Builds.placed.bind fun _ hplacement => .give hplacement)
    fun _ => .complain _

/-- A clause is as known as its parts. -/
theorem clauseCompleted_builds {clause : Clause} (h : clause.Meets g.demands) :
    (clauseCompleted clause).Builds g base fun v => v.Meets g.demands :=
  (Builds.complete _).bind fun _ _ => .give h

/-- A comma stands before a known name, or nothing does. -/
theorem commaIdentifier_builds : commaIdentifier.Builds g base
    fun v => ∀ name ∈ v, g.demands.identifier name :=
  .consume identifier_builds.some (.give nofun)

/-- A declared name is known when its jumps have been told of it. -/
theorem recordedDeclarator_builds : recordedDeclarator.Builds g base
    fun name => name.Meets g.demands :=
  declarator_builds.bind fun _ hname => (recordLocal_builds _).bind fun _ _ => .give hname

/-- A comma stands before a known declared name, or nothing does. -/
theorem commaDeclarator_builds : commaDeclarator.Builds g base
    fun v => ∀ name ∈ v, name.Meets g.demands :=
  .consume recordedDeclarator_builds.some (.give nofun)

/-- The name that is declared meets what the declaration meets, and may be replaced by one that does. -/
theorem declarator_identifier_meets {name : Declarator} (h : name.Meets g.demands) :
    g.demands.identifier name.identifier ∧ ∀ declared, g.demands.identifier declared →
      (name.withIdentifier declared).Meets g.demands := by
  cases name with
  | plain identifier => exact ⟨h, fun _ hdeclared => hdeclared⟩
  | typed typed =>
    obtain ⟨hfeature, hname, htype, hplacement⟩ := h
    exact ⟨hname, fun _ hdeclared => ⟨hfeature, hdeclared, htype, hplacement⟩⟩

/-- Declared variables are known if their names are. -/
theorem declareVariables_builds {names : List Declarator} (h : ∀ name ∈ names, name.Meets g.demands) :
    (declareVariables names).Builds g base fun v => ∀ name ∈ v, name.Meets g.demands := by
  induction names with
  | nil => exact .give (List.forall_mem_nil _)
  | cons name rest ih =>
    obtain ⟨hname, hrest⟩ := List.forall_mem_cons.mp h
    obtain ⟨hidentifier, hwith⟩ := declarator_identifier_meets hname
    refine (declare_builds hidentifier).bind fun declared hdeclared => ?_
    exact (ih hrest).bind fun _ hothers =>
      .give (List.forall_mem_cons.mpr ⟨hwith declared hdeclared, hothers⟩)

/-- An entry of a structure is made of known names. -/
theorem structureEntry_builds : structureEntry.Builds g base
    fun v => ∀ field ∈ v, field.Meets g.demands := by
  refine .at? (fun _ => .give nofun) (.mark fun start => ?_)
  refine identifier_builds.take takes_identifier fun key hkey => (Builds.expect _).bind fun _ _ => ?_
  refine identifier_builds.bind fun type htype => Builds.placed.bind fun placement hplacement => ?_
  have hfield : ∀ field ∈ some (StructureEntry.mk key type placement), field.Meets g.demands :=
    fun _ heq => Option.some.inj heq ▸ ⟨hkey, htype, hplacement⟩
  refine (Builds.complete _).bind fun _ _ => .consume (.give hfield) ?_
  exact .consume (.give hfield) (.give hfield)

/-- The declaration of a structure is known where the dialect has structures. -/
theorem structureDeclaration_builds (hfeature : g.demands.feature .hstructure) :
    (structureDeclaration start).Builds g (State.Begun g start) fun v => v.Meets g.demands := by
  refine identifier_builds.bind fun name hname => ?_
  refine (Builds.many structureEntry_builds).bind fun fields hfields => ?_
  refine (Builds.expect _).bind fun _ _ => Builds.placed.bind fun _ hplacement => ?_
  exact .give ⟨hfeature, hname, hfields, hplacement⟩

section

variable (hn : nested.Builds g)

include hn

/-- A `return` is known, whatever it returns. -/
theorem returnStatement_builds : (returnStatement nested start).Builds g (State.Begun g start)
    fun v => v.Meets g.demands := by
  refine .current fun token _ => .ite (fun _ => ?_) fun _ => ?_
  · exact Builds.placed.bind fun _ hplacement => .give ⟨trivial, hplacement⟩
  · refine (optionalList_builds hn).bind fun arguments harguments => .consume ?_ ?_ <;>
      exact Builds.placed.bind fun _ hplacement => .give ⟨harguments, hplacement⟩

/-! ## Conditions and loops -/

/-- A further condition is known, or there is none. -/
theorem elseifClause_builds : (elseifClause nested).Builds g base
    fun v => ∀ clause ∈ v, clause.Meets g.demands := by
  refine .mark fun start => .consumeBegin (fun _ => ?_) (.give nofun)
  refine (expression_builds hn).bind fun condition hcondition => (Builds.expect _).bind fun _ _ => ?_
  refine (scopedBlock_builds hn false).bind fun body hbody => ?_
  refine Builds.placed.bind fun placement hplacement => ?_
  have hclause : (Clause.elseifClause condition body placement).Meets g.demands :=
    ⟨hcondition, hbody, hplacement⟩
  exact (clauseCompleted_builds hclause).some

/-- What is done otherwise is known, or there is none. -/
theorem elseClause_builds : (elseClause nested).Builds g base
    fun v => ∀ clause ∈ v, clause.Meets g.demands := by
  refine .mark fun start => .consumeBegin (fun _ => ?_) (.give (List.forall_mem_nil _))
  refine (scopedBlock_builds hn false).bind fun body hbody => ?_
  refine Builds.placed.bind fun placement hplacement => ?_
  have hclause : (Clause.elseClause body placement).Meets g.demands := ⟨hbody, hplacement⟩
  exact (clauseCompleted_builds hclause).bind fun _ hclause =>
    .give (List.forall_mem_singleton.mpr hclause)

theorem ifStatement_builds : (ifStatement nested start).Builds g (State.Begun g start)
    fun v => v.Meets g.demands := by
  refine (expression_builds hn).bind fun condition hcondition => (Builds.expect _).bind fun _ _ => ?_
  refine (scopedBlock_builds hn false).bind fun body hbody => ?_
  refine Builds.placed.bind fun placement hplacement => ?_
  have hclause : (Clause.ifClause condition body placement).Meets g.demands :=
    ⟨hcondition, hbody, hplacement⟩
  refine (clauseCompleted_builds hclause).bind fun first hfirst => ?_
  refine (Builds.many (elseifClause_builds hn)).bind fun others hothers => ?_
  refine (elseClause_builds hn).bind fun last hlast => (Builds.expect _).bind fun _ _ => ?_
  refine Builds.placed.bind fun _ hplacement => .give ⟨clausesMeet_iff.mpr ?_, hplacement⟩
  exact List.forall_mem_append.mpr ⟨List.forall_mem_cons.mpr ⟨hfirst, hothers⟩, hlast⟩

theorem whileStatement_builds : (whileStatement nested start).Builds g (State.Begun g start)
    fun v => v.Meets g.demands := by
  refine (expression_builds hn).bind fun condition hcondition => (Builds.expect _).bind fun _ _ => ?_
  refine (scopedBlock_builds hn true).bind fun body hbody => (Builds.expect _).bind fun _ _ => ?_
  exact Builds.placed.bind fun _ hplacement => .give ⟨hcondition, hbody, hplacement⟩

theorem repeatStatement_builds : (repeatStatement nested start).Builds g (State.Begun g start)
    fun v => v.Meets g.demands := by
  refine openScope_builds.bind fun _ _ => (openBlock_builds true).bind fun _ _ => ?_
  refine (statements_builds hn).bind fun body hbody => (Builds.expect _).bind fun _ _ => ?_
  refine goOn_builds.bind fun _ _ => (expression_builds hn).bind fun condition hcondition => ?_
  refine closeBlock_builds.bind fun _ _ => closeScope_builds.bind fun scope hscope => ?_
  exact Builds.placed.bind fun _ hplacement =>
    .give ⟨meets_block hbody hscope, hcondition, hplacement⟩

theorem loopBody_builds : (loopBody nested).Builds g base
    fun v => ∀ statement ∈ v, statement.Meets g.demands := by
  refine (openBlock_builds true).bind fun _ _ => (statements_builds hn).bind fun body hbody => ?_
  exact closeBlock_builds.bind fun _ _ => (Builds.expect _).bind fun _ _ => .give hbody

/-- A loop over numbers is known if its counter is. -/
theorem numericFor_builds {counter : Identifier} (hcounter : g.demands.identifier counter) :
    (numericFor nested counter start).Builds g (State.Begun g start) fun v => v.Meets g.demands := by
  refine (expression_builds hn).bind fun first hfirst => (Builds.expect _).bind fun _ _ => ?_
  refine (expression_builds hn).bind fun last hlast => ?_
  refine (commaExpression_builds hn).bind fun step hstep => (Builds.expect _).bind fun _ _ => ?_
  refine openScope_builds.bind fun _ _ => (declare_builds hcounter).bind fun counter hcounter => ?_
  refine (loopBody_builds hn).bind fun body hbody => closeScope_builds.bind fun scope hscope => ?_
  refine Builds.placed.bind fun _ hplacement => .give ?_
  exact ⟨hcounter, hfirst, hlast, expressionMeets?_iff.mpr hstep, meets_block hbody hscope, hplacement⟩

/-- A loop over iterators is known if its first name is. -/
theorem genericFor_builds {first : Identifier} (hfirst : g.demands.identifier first) :
    (genericFor nested first start).Builds g (State.Begun g start) fun v => v.Meets g.demands := by
  refine (Builds.many commaIdentifier_builds).bind fun others hothers => ?_
  refine (Builds.expect _).bind fun _ _ => (expressionList_builds hn).bind fun iterators hiterators => ?_
  refine (Builds.expect _).bind fun _ _ => openScope_builds.bind fun _ _ => ?_
  refine (declareAll_builds (List.forall_mem_cons.mpr ⟨hfirst, hothers⟩)).bind fun names hnames => ?_
  refine (loopBody_builds hn).bind fun body hbody => closeScope_builds.bind fun scope hscope => ?_
  exact Builds.placed.bind fun _ hplacement =>
    .give ⟨hnames, hiterators, meets_block hbody hscope, hplacement⟩

theorem forStatement_builds : (forStatement nested start).Builds g (State.Begun g start)
    fun v => v.Meets g.demands :=
  identifier_builds.bind fun _ hfirst =>
    .consume (numericFor_builds hn hfirst) (genericFor_builds hn hfirst)

/-! ## Declarations and assignments -/

/-- A function that is a statement. -/
theorem functionStatement_builds {name : Expression} (hname : name.Meets g.demands)
    (isLocal isMethod : Bool) :
    (functionBody nested (some name) isLocal isMethod start >>= fun function =>
      pure (Statement.functionStatement function)).Builds g (State.Begun g start)
        fun v => v.Meets g.demands := by
  have hsome : expressionMeets? g.demands (some name) := hname
  exact (functionBody_builds hn hsome isLocal isMethod).bind fun _ hfunction => .give hfunction

theorem localFunction_builds : (localFunction nested start).Builds g (State.Begun g start)
    fun v => v.Meets g.demands := by
  refine identifier_builds.bind fun name hname => (recordLocal_builds _).bind fun _ _ => ?_
  refine (declare_builds hname).bind fun declared hdeclared => ?_
  have hexpression : (Expression.identifier declared).Meets g.demands := hdeclared
  exact functionStatement_builds hn hexpression true false

theorem localVariables_builds : (localVariables nested start).Builds g (State.Begun g start)
    fun v => v.Meets g.demands := by
  refine recordedDeclarator_builds.bind fun first hfirst => ?_
  refine (Builds.many commaDeclarator_builds).bind fun others hothers => ?_
  have hrest (values : List Expression) (hvalues : expressionsMeet g.demands values) :
      (declareVariables (first :: others) >>= fun names => placed start >>= fun placement =>
        pure (Statement.localStatement names values placement)).Builds g (State.Begun g start)
          fun v => v.Meets g.demands :=
    (declareVariables_builds (List.forall_mem_cons.mpr ⟨hfirst, hothers⟩)).bind fun _ hnames =>
      Builds.placed.bind fun _ hplacement => .give ⟨hnames, hvalues, hplacement⟩
  exact .consume ((expressionList_builds hn).bind hrest) (hrest [] trivial)

theorem localStatement_builds : (localStatement nested start).Builds g (State.Begun g start)
    fun v => v.Meets g.demands :=
  .consume (localFunction_builds hn) (localVariables_builds hn)

/-- A target is known before it is said to be one. -/
theorem target_builds : (target nested).Builds g base fun v => v.1.Meets g.demands := by
  refine .mark fun start => .current fun token _ => .ite (fun _ => ?_) fun _ => .consumeBegin
    (fun _ => ?_) .refuse
  · refine resolved_builds.take takes_resolved fun name hname => ?_
    have hfirst : (Expression.identifier name).Meets g.demands := hname
    exact (suffixes_builds hn hfirst).bind fun _ hplace => .give hplace
  · refine (parenthesised_builds hn).bind fun inner hinner => .current fun token _ => ?_
    exact (suffixes_builds hn hinner).bind fun _ hplace => .give hplace

theorem targetTurn_builds : (targetTurn nested).Builds g base
    fun v => ∀ place ∈ v.items, place.Meets g.demands := by
  refine (target_builds hn).bind fun (place, bare) hplace => .ite (fun _ => .refuse) fun _ => ?_
  exact .consume (.give (List.forall_mem_singleton.mpr hplace))
    (.give (List.forall_mem_singleton.mpr hplace))

/-- An assignment is known if its targets are. -/
theorem assignedValues_builds {targets : List Expression}
    (htargets : ∀ place ∈ targets, place.Meets g.demands) :
    (assignedValues nested targets start).Builds g (State.Begun g start) fun v => v.Meets g.demands := by
  refine (Builds.expect _).bind fun _ _ => (expressionList_builds hn).bind fun values hvalues => ?_
  exact Builds.placed.bind fun _ hplacement =>
    .give ⟨expressionsMeet_iff.mpr htargets, hvalues, hplacement⟩

/-- An assignment or a call begins where its first token does. -/
theorem assignmentOrCall_builds (ha : nested.Advances) :
    (assignmentOrCall nested start).Builds g (State.Marked g start) fun v => v.Meets g.demands := by
  refine (target_builds hn).take (Pairing.takes_target ha) fun (first, bare) hfirst => ?_
  refine (Builds.looks _).bind fun more _ => .ite (fun _ => ?_) fun _ => .ite (fun _ => .refuse)
    fun _ => .ite (fun _ => ?_) fun _ => ?_
  · exact Builds.placed.bind fun _ hplacement => .give ⟨hfirst, hplacement⟩
  · refine Builds.advance.bind fun _ _ => (Builds.repeated (targetTurn_builds hn)).bind
      fun others hothers => ?_
    exact assignedValues_builds hn (List.forall_mem_cons.mpr ⟨hfirst, hothers⟩)
  · exact assignedValues_builds hn (List.forall_mem_singleton.mpr hfirst)

/-! ## Statements -/

/-- A statement behind a known keyword is known, and the dialect has what it needs. -/
theorem keywordStatement_builds {token : Token} (htoken : g.token token) {word : ReservedWord}
    (hword : token.value = .keyword word) {rule : Rule Statement}
    (h : keywordStatement nested start word = some rule) :
    rule.Builds g (State.Begun g start) fun v => v.Meets g.demands := by
  have hfeature := g.word htoken
  rw [hword] at hfeature
  cases word <;> cases h
  case localWord => exact localStatement_builds hn
  case ifWord => exact ifStatement_builds hn
  case returnWord => exact returnStatement_builds hn
  case functionWord =>
    exact functionName_builds.bind fun (name, isMethod) hname =>
      functionStatement_builds hn hname false isMethod
  case whileWord => exact whileStatement_builds hn
  case forWord => exact forStatement_builds hn
  case repeatWord => exact repeatStatement_builds hn
  case breakWord => exact breakStatement_builds
  case doWord =>
    exact (scopedBlock_builds hn false).bind fun _ hbody => (Builds.expect _).bind fun _ _ =>
      Builds.placed.bind fun _ hplacement => .give ⟨hbody, hplacement⟩
  case gotoWord => exact gotoStatement_builds (hfeature _ rfl)
  case hstructureWord => exact structureDeclaration_builds (hfeature _ rfl)

/-- Where a name is read as the keyword of a jump, the dialect has labels. -/
theorem contextual_builds (ha : nested.Advances) :
    (atContextualGoto >>= fun goes => if goes then advance >>= fun _ => gotoStatement start
      else assignmentOrCall nested start).Builds g (State.Marked g start)
        fun v => v.Meets g.demands := by
  refine .read fun s _ _ => ?_
  intro pre _ hbase context t hof ht hpre
  show Fares g _ pre ((if context.options.has .contextualGoto && _ && _ then _ else _ : Rule Statement)
    context t)
  refine Builds.ite (fun hgoto => ?_) (fun _ => assignmentOrCall_builds hn ha) pre hbase context t hof
    ht hpre
  have hcontextual := (Bool.and_eq_true_iff.mp (Bool.and_eq_true_iff.mp hgoto).1).1
  rw [hof.options] at hcontextual
  have hlabels := Dialect.has_labels_of_contextualGoto hcontextual
  exact .begin (gotoStatement_builds (g.feature hlabels))

/-- A statement begins where its first token does. -/
theorem properStatement_builds (ha : nested.Advances) :
    (properStatement nested start).Builds g (State.Marked g start) fun v => v.Meets g.demands := by
  refine .current fun token htoken => ?_
  split
  · next word hword =>
    cases hrule : keywordStatement nested start word with
    | some rule => exact .begin (keywordStatement_builds hn htoken hword hrule)
    | none => exact assignmentOrCall_builds hn ha
  · exact contextual_builds hn ha

/-- A statement is known, if it is not left out. -/
theorem statement_builds (ha : nested.Advances) : (statement nested).Builds g base
    fun v => ∀ statement ∈ v, statement.Meets g.demands := by
  have hproper (start : Place) : (goOn >>= fun _ => properStatement nested start >>= fun v =>
      pure (some v)).Builds g (State.Marked g start)
        fun v => ∀ statement ∈ v, statement.Meets g.demands :=
    goOn_builds.bind fun _ _ => (properStatement_builds hn ha).some
  have hempty (start : Place) : (has .emptyStatement >>= fun empty => at? Symbol.semicolon >>=
      fun semicolon => if empty && semicolon then advance >>= fun _ => pure none
        else goOn >>= fun _ => properStatement nested start >>= fun v => pure (some v)).Builds g
          (State.Marked g start) fun v => ∀ statement ∈ v, statement.Meets g.demands := by
    refine .has fun empty _ => (Builds.looks _).bind fun semicolon _ => .ite (fun _ => ?_)
      fun _ => hproper start
    exact Builds.advance.bind fun _ _ => .give nofun
  refine .mark fun start => .has fun labels hlabels => .at? (fun _ => ?_) ?_
  · refine .ite (fun hhas => ?_) fun _ => hempty start
    exact .begin (labelStatement_builds (hlabels (Bool.and_eq_true_iff.mp hhas).1)).some
  · exact .ite (fun hhas => absurd hhas (by simp)) fun _ => hempty start

end

end Grammar

end LuaSyntax
