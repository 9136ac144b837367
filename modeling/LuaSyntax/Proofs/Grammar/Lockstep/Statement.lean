import LuaSyntax.Grammar.Statement
import LuaSyntax.Proofs.Grammar.Lockstep.Expression
import LuaSyntax.Proofs.Grammar.Levels

/-!
# Statements and chunks side by side

The rules of statements are stable over stable nested rules, and a statement takes a token. Here, too,
one rule looks at the token ahead: `goto` is a keyword in some dialects only if a name follows it. It
is an identifier otherwise, and both are taken.

What nests no deeper than a number of levels is read by rules that are stable and make progress, by
induction on the number of levels. From there it is a short way to the whole chunk.
-/

namespace LuaSyntax.Grammar

open Rule

variable {nested : Nested}

namespace Pairing

variable {P : Pairing} [P.Sound]

/-! ## Jumps -/

/-- Labels are read side by side. -/
theorem stable_labelStatement (start start' : Place) :
    P.Stable Same (labelStatement start) (labelStatement start') :=
  stable_current.bind fun _ _ htoken => stable_identifier.bind fun label label' hname =>
    (stable_expect _).bind fun _ _ _ => .read fun s t h => by
      rw [hname.name_eq]
      exact (stable_checked (Jumps.agree_addLabel h.jumps label'.name htoken)).bind
        fun _ _ hjumps => (stable_setJumps hjumps).bind fun _ _ _ =>
          (stable_placed start start').bindAny fun _ _ => .give (same_label hname)

/-- Gotos are read side by side. -/
theorem stable_gotoStatement (start start' : Place) :
    P.Stable Same (gotoStatement start) (gotoStatement start') :=
  .read fun s t h => stable_identifier.bind fun label label' hname => .read fun _ _ h' => by
    rw [hname.name_eq]
    exact (stable_setJumps (Jumps.same_addGoto h'.jumps label'.name h.previous)).bind fun _ _ _ =>
      (stable_placed start start').bindAny fun _ _ => .give (same_goto hname)

/-- Both parses are in a loop, or both refuse to leave one. -/
theorem stable_breakStatement (start start' : Place) :
    P.Stable Same (breakStatement start) (breakStatement start') :=
  .read fun _ _ h => .ite (Jumps.isInLoop_eq h.jumps)
    ((stable_placed start start').bindAny fun _ _ => .give rfl) (stable_complain _)

/-- What a `return` gives back is read side by side. -/
theorem stable_returnStatement (hn : P.Fit nested) (start start' : Place) :
    P.Stable Same (returnStatement nested start) (returnStatement nested start') :=
  stable_current.bind fun _ _ htoken => .ite (htoken.isWord_eq _)
    ((stable_placed start start').bindAny fun _ _ => .give (same_return (.refl [])))
    ((stable_optionalList hn).bind fun _ _ harguments => (stable_consume _).bind fun _ _ _ =>
      (stable_placed start start').bindAny fun _ _ => .give (same_return harguments))

/-! ## Conditions and loops -/

/-- Clauses that are the same are completed to the same. -/
theorem stable_clauseCompleted {clause clause' : Clause} (h : Same clause clause') :
    P.Stable Same (clauseCompleted clause) (clauseCompleted clause') :=
  (stable_complete _ _).bind fun _ _ _ => .give h

/-- Further conditions are read side by side. -/
theorem stable_elseifClause (hn : P.Fit nested) :
    P.Stable Same (elseifClause nested) (elseifClause nested) := by
  refine stable_mark.bindAny fun start start' => (stable_consume _).bind fun _ _ hword =>
    .ite hword ?_ (.give rfl)
  exact (stable_expression hn).bind fun _ _ hcondition => (stable_expect _).bind fun _ _ _ =>
    (stable_scopedBlock hn false).bind fun _ _ hbody => (stable_placed start start').bindAny
      fun _ _ => (stable_clauseCompleted (same_elseifClause hcondition hbody)).bind
        fun _ _ hclause => .give (same_some.mpr hclause)

/-- What is done otherwise is read side by side. -/
theorem stable_elseClause (hn : P.Fit nested) :
    P.Stable Same (elseClause nested) (elseClause nested) := by
  refine stable_mark.bindAny fun start start' => (stable_consume _).bind fun _ _ hword =>
    .ite hword ?_ (.give rfl)
  exact (stable_scopedBlock hn false).bind fun _ _ hbody => (stable_placed start start').bindAny
    fun _ _ => (stable_clauseCompleted (same_elseClause hbody)).bind fun _ _ hclause =>
      .give (same_cons.mpr ⟨hclause, .refl []⟩)

/-- A block with a scope of its own takes nothing back. -/
theorem steady_scopedBlock (hn : nested.Advances) (isLoop : Bool) :
    (scopedBlock nested isLoop).Steady :=
  .of_stable fun context count => stable_scopedBlock (hn.fit context count) isLoop

/-- A further condition takes a token if there is one. -/
theorem elseifClause_advances (hn : nested.Advances) : (elseifClause nested).ItemAdvances := by
  refine .of_leads fun count => (steady_mark count).bind fun start =>
    consume_leads (.ite (fun _ => ?_) (by simp)) (.ite (by simp) fun _ => .give (by simp))
  exact (steady_expression hn _).bind fun _ => ((takes_expect _).steady _).bind fun _ =>
    (steady_scopedBlock hn false _).bind fun _ => (steady_placed start _).bind fun _ =>
      (steady_complete _ _).bind fun _ => .give fun _ hs _ _ => hs

/-- Conditional statements are read side by side. -/
theorem stable_ifStatement (hn : P.Fit nested) (start start' : Place) :
    P.Stable Same (ifStatement nested start) (ifStatement nested start') :=
  (stable_expression hn).bind fun _ _ hcondition => (stable_expect _).bind fun _ _ _ =>
    (stable_scopedBlock hn false).bind fun _ _ hbody => (stable_placed start start').bindAny
      fun _ _ => (stable_clauseCompleted (same_ifClause hcondition hbody)).bind fun _ _ hfirst =>
        (Stable.many (stable_elseifClause hn) (hn.paced.imp_right elseifClause_advances)).bind
          fun _ _ hothers => (stable_elseClause hn).bind fun _ _ hlast =>
            (stable_expect _).bind fun _ _ _ => (stable_placed start start').bindAny fun _ _ =>
              .give (same_if ((same_cons.mpr ⟨hfirst, hothers⟩).append hlast))

/-- Loops with their condition in front are read side by side. -/
theorem stable_whileStatement (hn : P.Fit nested) (start start' : Place) :
    P.Stable Same (whileStatement nested start) (whileStatement nested start') :=
  (stable_expression hn).bind fun _ _ hcondition => (stable_expect _).bind fun _ _ _ =>
    (stable_scopedBlock hn true).bind fun _ _ hbody => (stable_expect _).bind fun _ _ _ =>
      (stable_placed start start').bindAny fun _ _ => .give (same_while hcondition hbody)

/-- Loops with their condition behind are read side by side. -/
theorem stable_repeatStatement (hn : P.Fit nested) (start start' : Place) :
    P.Stable Same (repeatStatement nested start) (repeatStatement nested start') :=
  stable_openScope.bind fun _ _ _ => (stable_openBlock true).bind fun _ _ _ =>
    (stable_statements hn).bind fun _ _ hbody => (stable_expect _).bind fun _ _ _ =>
      stable_goOn.bind fun _ _ _ => (stable_expression hn).bind fun _ _ hcondition =>
        stable_closeBlock.bind fun _ _ _ => stable_closeScope.bindAny fun _ _ =>
          (stable_placed start start').bindAny fun _ _ =>
            .give (same_repeat (same_block hbody) hcondition)

/-- The bodies of loops are read side by side. -/
theorem stable_loopBody (hn : P.Fit nested) : P.Stable Same (loopBody nested) (loopBody nested) :=
  (stable_openBlock true).bind fun _ _ _ => (stable_statements hn).bind fun _ _ hbody =>
    stable_closeBlock.bind fun _ _ _ => (stable_expect _).bind fun _ _ _ => .give hbody

/-- Loops over numbers are read side by side if their counters are the same. -/
theorem stable_numericFor (hn : P.Fit nested) {counter counter' : Identifier}
    (h : Same counter counter') (start start' : Place) :
    P.Stable Same (numericFor nested counter start) (numericFor nested counter' start') :=
  (stable_expression hn).bind fun _ _ hfirst => (stable_expect _).bind fun _ _ _ =>
    (stable_expression hn).bind fun _ _ hlast => (stable_commaExpression hn).bind fun _ _ hstep =>
      (stable_expect _).bind fun _ _ _ => stable_openScope.bind fun _ _ _ =>
        (stable_declare h).bind fun _ _ hcounter => (stable_loopBody hn).bind fun _ _ hbody =>
          stable_closeScope.bindAny fun _ _ => (stable_placed start start').bindAny fun _ _ =>
            .give (same_numericFor hcounter hfirst hlast hstep (same_block hbody))

/-- Commas and names are read side by side. -/
theorem stable_commaIdentifier : P.Stable Same commaIdentifier commaIdentifier :=
  (stable_consume _).bind fun _ _ hcomma => .ite hcomma
    (stable_identifier.bind fun _ _ hname => .give (same_some.mpr hname)) (.give rfl)

/-- A name behind a comma takes a token. -/
theorem commaIdentifier_advances : commaIdentifier.ItemAdvances :=
  .of_leads fun count => consume_leads
    (.ite (fun _ => (takes_identifier.steady _).bind fun _ => .give fun _ hs _ _ => hs) (by simp))
    (.ite (by simp) fun _ => .give (by simp))

/-- Loops over iterators are read side by side if their first names are the same. -/
theorem stable_genericFor (hn : P.Fit nested) {first first' : Identifier} (h : Same first first')
    (start start' : Place) :
    P.Stable Same (genericFor nested first start) (genericFor nested first' start') :=
  (Stable.many stable_commaIdentifier (.inr commaIdentifier_advances)).bind fun _ _ hothers =>
    (stable_expect _).bind fun _ _ _ => (stable_expressionList hn).bind fun _ _ hiterators =>
      (stable_expect _).bind fun _ _ _ => stable_openScope.bind fun _ _ _ =>
        (stable_declareAll (same_cons.mpr ⟨h, hothers⟩)).bind fun _ _ hnames =>
          (stable_loopBody hn).bind fun _ _ hbody => stable_closeScope.bindAny fun _ _ =>
            (stable_placed start start').bindAny fun _ _ =>
              .give (same_genericFor hnames hiterators (same_block hbody))

/-- Which loop it is is told alike in both parses, by the token behind its first name. -/
theorem stable_forStatement (hn : P.Fit nested) (start start' : Place) :
    P.Stable Same (forStatement nested start) (forStatement nested start') :=
  stable_identifier.bind fun _ _ hname => (stable_consume _).bind fun _ _ hassign => .ite hassign
    (stable_numericFor hn hname start start') (stable_genericFor hn hname start start')

/-! ## Declarations -/

/-- Declared names are recorded side by side. -/
theorem stable_recordedDeclarator : P.Stable Same recordedDeclarator recordedDeclarator :=
  stable_declarator.bind fun name name' hname => by
    rw [hname.identifier.name_eq]
    exact (stable_recordLocal _).bind fun _ _ _ => .give hname

/-- Commas and declared names are read side by side. -/
theorem stable_commaDeclarator : P.Stable Same commaDeclarator commaDeclarator :=
  (stable_consume _).bind fun _ _ hcomma => .ite hcomma
    (stable_recordedDeclarator.bind fun _ _ hname => .give (same_some.mpr hname)) (.give rfl)

/-- A declared name behind a comma takes a token. -/
theorem commaDeclarator_advances : commaDeclarator.ItemAdvances := by
  refine .of_leads fun count => consume_leads (.ite (fun _ => ?_) (by simp))
    (.ite (by simp) fun _ => .give (by simp))
  exact (Steady.of_stable (fun _ _ => stable_recordedDeclarator) _).bind fun _ =>
    .give fun _ hs _ _ => hs

/-- Variables that are the same are declared to the same. -/
theorem stable_declareVariables {names names' : List Declarator} (h : Same names names') :
    P.Stable Same (declareVariables names) (declareVariables names') := by
  induction names generalizing names' with
  | nil =>
    match names' with
    | [] => exact .give rfl
    | _ :: _ => exact absurd h not_same_nil_cons
  | cons name rest ih =>
    match names' with
    | [] => exact absurd h not_same_cons_nil
    | name' :: rest' =>
      obtain ⟨hname, hrest⟩ := same_cons.mp h
      exact (stable_declare hname.identifier).bind fun _ _ hdeclared => (ih hrest).bind
        fun _ _ hothers => .give (same_cons.mpr ⟨hname.withIdentifier hdeclared, hothers⟩)

/-- Local functions are read side by side. -/
theorem stable_localFunction (hn : P.Fit nested) (start start' : Place) :
    P.Stable Same (localFunction nested start) (localFunction nested start') :=
  stable_identifier.bind fun name name' hname => by
    rw [hname.name_eq]
    exact (stable_recordLocal _).bind fun _ _ _ => (stable_declare hname).bind
      fun _ _ hdeclared => (stable_functionBody hn (same_some.mpr (same_nameExpression hdeclared))
        true false start start').bind fun _ _ hfunction => .give (same_functionStatement hfunction)

/-- Local variables are read side by side. -/
theorem stable_localVariables (hn : P.Fit nested) (start start' : Place) :
    P.Stable Same (localVariables nested start) (localVariables nested start') := by
  refine stable_recordedDeclarator.bind fun _ _ hfirst =>
    (Stable.many stable_commaDeclarator (.inr commaDeclarator_advances)).bind fun _ _ hothers =>
      (stable_consume _).bind fun _ _ hassign => ?_
  have hnames := stable_declareVariables (P := P) (same_cons.mpr ⟨hfirst, hothers⟩)
  refine .ite hassign ((stable_expressionList hn).bind fun _ _ hvalues => ?_) ?_
  · exact hnames.bind fun _ _ hnames => (stable_placed start start').bindAny fun _ _ =>
      .give (same_local hnames hvalues)
  · exact hnames.bind fun _ _ hnames => (stable_placed start start').bindAny fun _ _ =>
      .give (same_local hnames (.refl []))

/-- What is local is told alike in both parses, by the token behind the keyword. -/
theorem stable_localStatement (hn : P.Fit nested) (start start' : Place) :
    P.Stable Same (localStatement nested start) (localStatement nested start') :=
  (stable_consume _).bind fun _ _ hword => .ite hword (stable_localFunction hn start start')
    (stable_localVariables hn start start')

/-! ## Assignments and calls -/

/-- Targets are read side by side, and are fit to be assigned in both parses or in neither. -/
theorem stable_target (hn : P.Fit nested) : P.Stable Same (target nested) (target nested) := by
  refine stable_mark.bindAny fun start start' => stable_current.bind fun _ _ htoken =>
    .ite (by rw [htoken.kind_eq]) ?_ ?_
  · exact stable_resolved.bind fun _ _ hname =>
      (stable_suffixes hn (same_nameExpression hname) start start').bind fun _ _ hexpression =>
        .give (same_mk.mpr ⟨hexpression, rfl⟩)
  · refine (stable_consume _).bind fun _ _ hparen => .ite hparen ?_ stable_refuse
    exact (stable_parenthesised hn).bind fun _ _ hinner => stable_current.bind fun _ _ htoken =>
      (stable_suffixes hn hinner start start').bind fun _ _ hexpression =>
        .give (same_mk.mpr ⟨hexpression, by rw [startsSuffix_eq htoken]⟩)

/-- A target takes a token. -/
theorem takes_target (hn : nested.Advances) : (target nested).Takes := by
  refine steady_mark.bind fun start => steady_current.bind fun token => .ite ?_
    (.consume ?_ (.of_fails fails_refuse))
  · exact takes_resolved.bind fun name => (steady_suffixes hn _ start).andThen fun _ => steady_give _
  · exact (steady_parenthesised hn).andThen fun inner => steady_current.andThen fun _ =>
      (steady_suffixes hn inner start).andThen fun _ => steady_give _

/-- Targets behind a comma are read side by side. -/
theorem stable_targetTurn (hn : P.Fit nested) :
    P.Stable Same (targetTurn nested) (targetTurn nested) :=
  (stable_target hn).bind fun (place, bare) (place', bare') h => by
    obtain ⟨hplace, hbare⟩ := same_mk.mp h
    exact .ite (by rw [same_bool.mp hbare, hplace.isAssignable_eq]) stable_refuse
      ((stable_consume _).bind fun _ _ hcomma => .ite hcomma (.give (same_more.mpr hplace))
        (.give (same_last.mpr hplace)))

/-- A target behind a comma takes a token. -/
theorem targetTurn_advances (hn : nested.Advances) : (targetTurn nested).TurnAdvances :=
  .of_leads fun count => (takes_target hn count).bind fun (place, bare) =>
    .ite (fun _ => .of_fails fun context s => (fails_refuse context s).imp fun _ h => ⟨s, h⟩)
      fun _ => (steady_consume _ _).bind fun _ =>
        .ite (fun _ => .give fun _ hs _ _ => hs) fun _ => .give (by simp)

/-- Assignments are read side by side if their targets are the same. -/
theorem stable_assignedValues (hn : P.Fit nested) {targets targets' : List Expression}
    (h : Same targets targets') (start start' : Place) :
    P.Stable Same (assignedValues nested targets start) (assignedValues nested targets' start') :=
  (stable_expect _).bind fun _ _ _ => (stable_expressionList hn).bind fun _ _ hvalues =>
    (stable_placed start start').bindAny fun _ _ => .give (same_assignment h hvalues)

/-- An assignment or a call, behind the first operand. -/
theorem stable_assignmentOrCall (hn : P.Fit nested) (start start' : Place) :
    P.Stable Same (assignmentOrCall nested start) (assignmentOrCall nested start') :=
  (stable_target hn).bind fun (first, bare) (first', bare') h => by
    obtain ⟨hfirst, hbare⟩ := same_mk.mp h
    refine (stable_at? _).bind fun more more' hmore => .ite ?_ ?_ (.ite ?_ stable_refuse
      (.ite hmore ?_ ?_))
    · rw [same_bool.mp hbare, hfirst.isCall_eq, same_bool.mp hmore]
    · exact (stable_placed start start').bindAny fun _ _ => .give (same_callStatement hfirst)
    · rw [same_bool.mp hbare, hfirst.isAssignable_eq]
    · exact stable_advance.bind fun _ _ _ =>
        (Stable.repeated (stable_targetTurn hn) (hn.paced.imp_right targetTurn_advances)).bind
          fun _ _ hothers => stable_assignedValues hn (same_cons.mpr ⟨hfirst, hothers⟩) start start'
    · exact stable_assignedValues hn (same_cons.mpr ⟨hfirst, .refl []⟩) start start'

/-- An assignment or a call takes a token. -/
theorem takes_assignmentOrCall (hn : nested.Advances) (start : Place) :
    (assignmentOrCall nested start).Takes := by
  refine (takes_target hn).bind fun (first, bare) => (steady_at? _).andThen fun more =>
    .ite ?_ (.ite ?_ (.ite ?_ ?_))
  · exact (steady_placed start).andThen fun _ => steady_give _
  · exact (Takes.of_fails fails_refuse).steady
  · exact takes_advance.steady.andThen fun _ => (Steady.of_stable fun context count =>
      Stable.repeated (stable_targetTurn (hn.fit context count)) (.inl rfl)).andThen fun targets =>
        .of_stable fun context count =>
          stable_assignedValues (hn.fit context count) (.refl (first :: targets)) start start
  · exact .of_stable fun context count =>
      stable_assignedValues (hn.fit context count) (.refl [first]) start start

/-! ## Structures -/

/-- Entries of structures are read side by side. -/
theorem stable_structureEntry : P.Stable Same structureEntry structureEntry := by
  refine (stable_at? _).bind fun _ _ hend => .ite hend (.give rfl) ?_
  refine stable_mark.bindAny fun start start' => stable_identifier.bind fun _ _ hkey =>
    (stable_expect _).bind fun _ _ _ => stable_identifier.bind fun _ _ htype =>
      (stable_placed start start').bindAny fun _ _ => (stable_complete _ _).bind fun _ _ _ =>
        (stable_consume _).bind fun _ _ hcomma => .ite (by rw [same_bool.mp hcomma]) ?_ ?_
  · exact (stable_consume _).bind fun _ _ _ => .give (same_some.mpr (same_entry hkey htype))
  · exact .give (same_some.mpr (same_entry hkey htype))

/-- An entry of a structure takes a token if there is one. -/
theorem structureEntry_advances : structureEntry.ItemAdvances := by
  refine .of_leads fun count => (steady_at? _ count).bind fun _ =>
    .ite (fun _ => .give (by simp)) fun _ => (steady_mark count).bind fun start =>
      (takes_identifier count).bind fun _ => ((takes_expect _).steady _).bind fun _ =>
        (takes_identifier.steady _).bind fun _ => (steady_placed start _).bind fun _ =>
          (steady_complete _ _).bind fun _ => (steady_consume _ _).bind fun _ =>
            .ite (fun _ => ?_) fun _ => .give fun _ hs _ _ => hs
  exact (steady_consume _ _).bind fun _ => .give fun _ hs _ _ => hs

/-- Declarations of structures are read side by side. -/
theorem stable_structureDeclaration (start start' : Place) :
    P.Stable Same (structureDeclaration start) (structureDeclaration start') :=
  stable_identifier.bind fun _ _ hname =>
    (Stable.many stable_structureEntry (.inr structureEntry_advances)).bind fun _ _ hfields =>
      (stable_expect _).bind fun _ _ _ => (stable_placed start start').bindAny fun _ _ =>
        .give (same_structure hname hfields)

/-! ## Statements -/

/-- A keyword begins a statement in both parses, or in none. -/
theorem stable_keywordStatement (hn : P.Fit nested) (start start' : Place) (word : ReservedWord) :
    (∃ rule rule', keywordStatement nested start word = some rule ∧
      keywordStatement nested start' word = some rule' ∧ P.Stable Same rule rule') ∨
    (keywordStatement nested start word = none ∧ keywordStatement nested start' word = none) := by
  cases word with
  | localWord => exact .inl ⟨_, _, rfl, rfl, stable_localStatement hn start start'⟩
  | ifWord => exact .inl ⟨_, _, rfl, rfl, stable_ifStatement hn start start'⟩
  | returnWord => exact .inl ⟨_, _, rfl, rfl, stable_returnStatement hn start start'⟩
  | whileWord => exact .inl ⟨_, _, rfl, rfl, stable_whileStatement hn start start'⟩
  | forWord => exact .inl ⟨_, _, rfl, rfl, stable_forStatement hn start start'⟩
  | repeatWord => exact .inl ⟨_, _, rfl, rfl, stable_repeatStatement hn start start'⟩
  | breakWord => exact .inl ⟨_, _, rfl, rfl, stable_breakStatement start start'⟩
  | gotoWord => exact .inl ⟨_, _, rfl, rfl, stable_gotoStatement start start'⟩
  | hstructureWord => exact .inl ⟨_, _, rfl, rfl, stable_structureDeclaration start start'⟩
  | functionWord =>
    refine .inl ⟨_, _, rfl, rfl, stable_functionName.bind fun (name, isMethod) (name', isMethod') h => ?_⟩
    obtain ⟨hname, hmethod⟩ := same_mk.mp h
    obtain rfl := same_bool.mp hmethod
    exact (stable_functionBody hn (same_some.mpr hname) false isMethod start start').bind
      fun _ _ hfunction => .give (same_functionStatement hfunction)
  | doWord =>
    exact .inl ⟨_, _, rfl, rfl, (stable_scopedBlock hn false).bind fun _ _ hbody =>
      (stable_expect _).bind fun _ _ _ => (stable_placed start start').bindAny fun _ _ =>
        .give (same_do hbody)⟩
  | _ => exact .inr ⟨rfl, rfl⟩

/-- Where a name stands, a target takes it. -/
theorem takesName_target (hn : P.Fit nested) : P.TakesName (target nested) := by
  intro s hs he
  show P.Escaped ((if s.token.kind == .identifier then _ else _ : Rule (Expression × Bool)) P.left s).2
  rw [hs]
  exact takesName_resolved.bind (fun name =>
    (stable_suffixes hn (.refl (.identifier name)) s.token.start s.token.start).escape.bind
      fun _ => .give _) s hs he

/-- Where a name stands, an assignment or a call takes it. -/
theorem takesName_assignmentOrCall (hn : P.Fit nested) (start : Place) :
    P.TakesName (assignmentOrCall nested start) := by
  have hplaced (made : Placement → Statement) :
      P.Stays (placed start >>= fun placement => pure (made placement)) :=
    (stable_placed start start).escape.bind fun _ => .give _
  refine (takesName_target hn).bind fun (first, bare) => (stable_at? _).escape.bind fun more =>
    .ite (hplaced _) (.ite (stable_refuse (V := Any)).escape (.ite ?_ ?_))
  · exact stable_advance.escape.bind fun _ => Stays.bind (Stable.repeated (stable_targetTurn hn)
      (hn.paced.imp_right targetTurn_advances)).escape fun others =>
        (stable_assignedValues hn (.refl (first :: others)) start start).escape
  · exact (stable_assignedValues hn (.refl [first]) start start).escape

/-- Statements are read side by side; a `goto` that is no keyword is taken in both. -/
theorem stable_properStatement (hn : P.Fit nested) (start start' : Place) :
    P.Stable Same (properStatement nested start) (properStatement nested start') := by
  refine stable_current.bind fun token token' htoken => ?_
  rw [htoken.value_eq]
  split
  · next word _ =>
    obtain ⟨rule, rule', hrule, hrule', hstable⟩ | ⟨hrule, hrule'⟩ :=
      stable_keywordStatement hn start start' word
    · rw [hrule, hrule']
      exact stable_advance.bind fun _ _ _ => hstable
    · rw [hrule, hrule']
      exact stable_assignmentOrCall hn start start'
  · refine Stable.choose
      (fun context s => context.options.has .contextualGoto &&
        s.token.name? == some "goto" && s.lookahead.kind == .identifier)
      (stable_advance.bind fun _ _ _ => stable_gotoStatement start start')
      (stable_assignmentOrCall hn start start') fun s t hst => ?_
    have hdialect := Sound.dialect_eq (P := P)
    have hname := (Sound.alike hst).token.name?_eq
    rcases Sound.ahead hst with hahead | he
    · exact .inl (by rw [ParseOptions.has, ParseOptions.has, hdialect, hname, hahead.kind_eq])
    · by_cases hgoto : s.token.name? = some "goto"
      · have hkind := Token.kind_of_name hgoto
        exact .inr ⟨.escaped (escaped_bind he fun _ => (stable_gotoStatement start start).escape),
          .escaped (takesName_assignmentOrCall hn start s hkind he)⟩
      · have hgoto' : t.token.name? ≠ some "goto" := hname ▸ hgoto
        left
        rw [beq_false_of_ne hgoto, beq_false_of_ne hgoto', Bool.and_false, Bool.and_false]
        rfl

/-- Statements are read side by side, empty ones included. -/
theorem stable_statement (hn : P.Fit nested) :
    P.Stable Same (statement nested) (statement nested) := by
  refine stable_mark.bindAny fun start start' => (stable_has _).bind fun _ _ hlabels =>
    (stable_at? _).bind fun _ _ hcolons => .ite ?_ ?_ ?_
  · rw [same_bool.mp hlabels, same_bool.mp hcolons]
  · exact stable_advance.bind fun _ _ _ => (stable_labelStatement start start').bind
      fun _ _ hstatement => .give (same_some.mpr hstatement)
  · refine (stable_has _).bind fun _ _ hempty => (stable_at? _).bind fun _ _ hsemicolon => .ite ?_
      (stable_advance.bind fun _ _ _ => .give rfl) ?_
    · rw [same_bool.mp hempty, same_bool.mp hsemicolon]
    · exact stable_goOn.bind fun _ _ _ => (stable_properStatement hn start start').bind
        fun _ _ hstatement => .give (same_some.mpr hstatement)

/-- A statement that is not empty takes a token. -/
theorem takes_properStatement (hn : nested.Advances) (start : Place) :
    (properStatement nested start).Takes := by
  refine steady_current.bind fun token => ?_
  split
  · next word _ =>
    split
    · next rule hrule =>
      refine takes_advance.bind fun _ => .of_stable (V := Same) fun context count => ?_
      obtain ⟨_, _, hfirst, hsecond, hstable⟩ | ⟨hnone, -⟩ :=
        stable_keywordStatement (hn.fit context count) start start word
      · obtain rfl := Option.some.inj (hrule.symm.trans hfirst)
        obtain rfl := Option.some.inj (hrule.symm.trans hsecond)
        exact hstable
      · rw [hrule] at hnone
        cases hnone
    · exact takes_assignmentOrCall hn start
  · refine Steady.bind (fun count context s v s' hs hrun => ?_) fun _ => .ite ?_
      (takes_assignmentOrCall hn start)
    · cases hrun
      exact hs
    · exact takes_advance.bind fun _ => .of_stable fun _ _ => stable_gotoStatement start start

/-- Every statement takes a token. -/
theorem takes_statement (hn : nested.Advances) : (statement nested).Takes := by
  refine steady_mark.bind fun start => (steady_has _).bind fun _ => (steady_at? _).bind fun _ =>
    .ite ?_ ((steady_has _).bind fun _ => (steady_at? _).bind fun _ => .ite ?_ ?_)
  · exact takes_advance.bind fun _ =>
      (Steady.of_stable fun _ _ => stable_labelStatement start start).andThen fun _ => steady_give _
  · exact takes_advance.bind fun _ => steady_give _
  · exact (Steady.of_stable fun _ _ => stable_goOn).bind fun _ =>
      (takes_properStatement hn start).bind fun _ => steady_give _

/-! ## Levels and chunks -/

/-- Statements of the next level are read side by side. -/
theorem stable_nestedStatement (hn : P.Fit nested) :
    P.Stable Same (nestedStatement nested) (nestedStatement nested) :=
  (stable_statement hn).bindOption (.give rfl) fun _ _ hstatement =>
    (stable_complete _ _).bind fun _ _ _ => .give (same_some.mpr hstatement)

/-- The rules of one more level are stable if those below are. -/
theorem stableNested_deeper (hn : P.Fit nested) : P.StableNested nested.deeper where
  statement := stable_nestedStatement hn
  expression := stable_operation hn
  ahead := .inr (.inr (takesName_operation hn 0))

omit [P.Sound] in
/-- Where nothing may be nested both parses fail. -/
theorem stableNested_bottom : P.StableNested .bottom where
  statement := stable_complain _
  expression _ := stable_complain _
  ahead := .inr (.inl fun _ _ _ => ⟨_, rfl⟩)

end Pairing

/-- Where nothing may be nested nothing is read that would have to take a token. -/
theorem advances_bottom : Nested.bottom.Advances where
  statement := .of_fails fun _ _ => ⟨_, rfl⟩
  stable _ _ := Pairing.stableNested_bottom

/-- On the next level, too, what is read takes a token. -/
theorem advances_deeper (hn : nested.Advances) : nested.deeper.Advances where
  statement := (Pairing.takes_statement hn).bind fun found => by
    cases found with
    | none => exact steady_give none
    | some statement => exact (steady_complete _).andThen fun _ => steady_give _
  stable context count := Pairing.stableNested_deeper (hn.fit context count)

/-- On every level what is read takes a token. -/
theorem advances_levels (level : Nat) : (levels level).Advances := by
  induction level with
  | zero => exact advances_bottom
  | succ level ih => exact advances_deeper ih

namespace Pairing

variable {P : Pairing} [P.Sound]

/-- Every number of levels is fit for reading side by side. -/
theorem fit_levels (level : Nat) : P.Fit (levels level) := by
  induction level with
  | zero => exact ⟨stableNested_bottom, .inr advances_bottom⟩
  | succ level ih => exact ⟨stableNested_deeper ih, .inr (advances_levels (level + 1))⟩

/-- The names without a declaration may differ. -/
theorem stable_takeUnresolved : P.Stable Any takeUnresolved takeUnresolved :=
  .quiet (Q := fun _ => True) (R := fun _ => True)
    (fun _ s => ⟨_, s.scope.takeUnresolved.2, s.log, rfl, trivial⟩)
    (fun _ s => ⟨_, s.scope.takeUnresolved.2, s.log, rfl, trivial⟩) fun _ _ _ _ => trivial

/-- Behind the statements of a chunk the input has to end. A chunk without statements stands where
it does. -/
theorem stable_atEnd {α : Type} {V : α → α → Prop} {r r' : Rule α} (h : P.Stable V r r') (c : Bool) :
    P.Stable V
      (current >>= fun token =>
        if !token.isEnd then
          refuse >>= fun _ : Unit =>
            if c then modify (fun state => { state with previous := state.token }) >>= fun _ => r else r
        else
          if c then modify (fun state => { state with previous := state.token }) >>= fun _ => r else r)
      (current >>= fun token =>
        if !token.isEnd then
          refuse >>= fun _ : Unit =>
            if c then modify (fun state => { state with previous := state.token }) >>= fun _ => r' else r'
        else
          if c then modify (fun state => { state with previous := state.token }) >>= fun _ => r'
          else r') where
  escape := by
    have hsettle : P.Stays (modify fun state => { state with previous := state.token }) :=
      fun s hs => Sound.escaped_settle hs
    have hrest := (hsettle.bind fun _ => h.escape).ite (c := c) h.escape
    exact (stable_current (P := P)).escape.bind fun token =>
      .ite ((stable_refuse (V := Any)).escape.bind fun _ => hrest) hrest
  meet s t hst := by
    have hend := (Sound.alike hst).token.isEnd_eq
    show P.Meet V ((if !s.token.isEnd then _ else _ : Rule α) P.left s)
      ((if !t.token.isEnd then _ else _ : Rule α) P.right t)
    rw [← hend]
    cases hs : s.token.isEnd
    · obtain ⟨error, hs⟩ : ∃ error, (refuse : Rule Unit) P.left s = (.error error, s) :=
        fails_refuse P.left s
      obtain ⟨error', ht⟩ : ∃ error, (refuse : Rule Unit) P.right t = (.error error, t) :=
        fails_refuse P.right t
      show P.Meet V ((refuse >>= _ : Rule α) P.left s) ((refuse >>= _ : Rule α) P.right t)
      rw [bind_of_error hs, bind_of_error ht]
      exact .failed
    · cases c
      · exact h.meet s t hst
      · exact h.meet _ _ (Sound.settle hst hs)

/-- The bodies of chunks are read side by side. -/
theorem stable_chunkBody (limit : Nat) :
    P.Stable Same (chunkBody (levels limit)) (chunkBody (levels limit)) := by
  refine stable_mark.bindAny fun start start' => stable_openScope.bind fun _ _ _ =>
    (stable_openBlock false).bind fun _ _ _ => (stable_statements (fit_levels limit)).bind
      fun body body' hbody => stable_closeBlock.bind fun _ _ _ =>
        stable_closeScope.bindAny fun scope scope' => ?_
  rw [hbody.isEmpty_eq]
  refine stable_atEnd ((stable_placed start start').bindAny fun placement placement' =>
    stable_takeUnresolved.bindAny fun globals globals' => .read fun s t _ => ?_) _
  exact stable_context.bindAny fun _ _ => (stable_complete _ _).bind fun _ _ _ =>
    .give (same_chunk (same_block hbody))

/-- Chunks are read side by side, their first two tokens included. -/
theorem stable_chunk (limit : Nat) : P.Stable Same (chunkOver (levels limit)) (chunkOver (levels limit)) :=
  stable_advance.bind fun _ _ _ => stable_advance.bind fun _ _ _ => stable_chunkBody limit

end Pairing

/-- A chunk begins with two deliveries. -/
theorem chunk_eq_ok {limit : Nat} {context : Context} {s s' : State} {value : Chunk} :
    chunkOver (levels limit) context s = (.ok value, s') ↔
      ∃ first feed second feed', s.feed.next = .ok (first, feed) ∧ feed.next = .ok (second, feed') ∧
        chunkBody (levels limit) context (shift (shift s first feed) second feed') = (.ok value, s') := by
  constructor
  · intro h
    obtain ⟨_, s₁, hs₁, h⟩ := bind_eq_ok.mp h
    obtain ⟨_, s₂, hs₂, h⟩ := bind_eq_ok.mp h
    obtain ⟨first, feed, hfirst, rfl⟩ := advance_eq_ok.mp hs₁
    obtain ⟨second, feed', hsecond, rfl⟩ := advance_eq_ok.mp hs₂
    exact ⟨first, feed, second, feed', hfirst, hsecond, h⟩
  · rintro ⟨first, feed, second, feed', hfirst, hsecond, h⟩
    rw [chunkOver, bind_of_ok (advance_eq_ok.mpr ⟨first, feed, hfirst, rfl⟩),
      bind_of_ok (advance_eq_ok.mpr ⟨second, feed', hsecond, rfl⟩), h]

end LuaSyntax.Grammar
