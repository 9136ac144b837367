import LuaSyntax.Grammar.Statement
import LuaSyntax.Proofs.Grammar.Twins.Expression

/-!
# Statements in twins

A statement finds the gotos that wait behind it, and a label if it is one. That a `goto` begins with the
token that is remembered for it is known where its keyword is taken. A function that is a statement may be
to blame for a failure of the second parse, and is not yet told of where it is complete.
-/

namespace LuaSyntax.Grammar

open Rule

/-- Whether a statement is a function that an error blames. -/
def Context.BlamesStatement (context : Context) (statement : Statement) (error : ParseError) : Prop :=
  ∃ function, statement = .functionStatement function ∧ context.Blames error function.body

namespace Twins

variable {T : Twins} {since : Jumps → Prop} {found : Findings}

/-- Rules that make a statement, and what they find is found in that. -/
abbrev Makes (T : Twins) (r r' : Rule Statement) : Prop :=
  T.Finds (fun statement => .of T.left [statement]) T.left.BlamesStatement r r'

/-! ## Making statements -/

section

variable [T.Sound] {guilty : Statement → ParseError → Prop} {make make' : Placement → Statement}
  (hmake : ∀ placement placement', Akin T.erasure placement placement' →
    Akin T.erasure (make placement) (make' placement'))

include hmake

/-- A statement with neither blocks nor a label in it. -/
theorem runs_plain (start : Place) (hlabel : ∀ placement, labelsOf [make placement] = []) :
    T.Runs (State.Found since found) (fun v => State.Found since (found.also (.of T.left [v]))) guilty
      (placed start >>= fun placement => pure (make placement))
      (placed start >>= fun placement => pure (make' placement)) := by
  refine (stable_placed start).before fun placement placement' hplacement =>
    .give (hmake _ _ hplacement) fun s hs => hs.mono ?_
  exact Findings.within_also_nothing.trans (Findings.nothing_of (hlabel placement)).also

/-- A statement made of blocks. -/
theorem runs_compound {blocks : List Block} (start : Place)
    (hblocks : ∀ placement, (make placement).blocks.map Prod.fst = blocks)
    (hlabel : ∀ placement, labelsOf [make placement] = []) :
    T.Runs (State.Found since (found.also (.inside T.left blocks)))
      (fun v => State.Found since (found.also (.of T.left [v]))) guilty
      (placed start >>= fun placement => pure (make placement))
      (placed start >>= fun placement => pure (make' placement)) := by
  refine (stable_placed start).before fun placement placement' hplacement =>
    .give (hmake _ _ hplacement) fun s hs => hs.mono ?_
  rw [← hblocks placement]
  exact (Findings.inside_blocks (hlabel placement)).also

end

/-! ## Jumps -/

section

variable {α γ : Type} [Erasable α] {pre : State → Prop} {post : α → State → Prop}
  {guilty : α → ParseError → Prop}

/-- Jumps are checked alike in twins, and what comes of that may differ as their records do. -/
theorem runs_checked [T.Sound] (check : Jumps → Except JumpFault γ) (change : γ → γ)
    (hcheck : ∀ jumps : Jumps, check { jumps with checksTargets := T.right.options.checkGotoLabels } =
      (check jumps).map change) {f g : γ → Rule α}
    (h : ∀ jumps v, check jumps = .ok v →
      T.Runs (fun s => pre s ∧ s.jumps = jumps) post guilty (f v) (g (change v))) :
    T.Runs pre post guilty (state >>= fun s => checked (check s.jumps) >>= f)
      (state >>= fun s => checked (check s.jumps) >>= g) := by
  refine ⟨.read fun s => ?_, fun s t hst hpre => ?_⟩
  · cases hchecked : check s.jumps with
    | ok v => exact (h s.jumps v hchecked).lasting
    | error fault => exact .of_fails fun _ s => ⟨_, s, rfl⟩
  · show T.Meet post guilty ((checked (check s.jumps) >>= f) T.left s)
      ((checked (check t.jumps) >>= g) T.right t)
    rw [hst.jumps, hcheck]
    cases hchecked : check s.jumps with
    | ok v => exact (h s.jumps v hchecked).meet s t hst ⟨hpre, rfl⟩
    | error fault =>
      have hfails : ∀ {context : Context} {u : State} (k : γ → Rule α),
          (checked (.error fault) >>= k) context u =
            (.error (errorAt context.source fault.token fault.message fault.arguments), u) := fun _ => rfl
      rw [hfails, show Except.map change (.error fault) = .error fault from rfl, hfails,
        Sound.source (T := T)]
      exact .failed

/-- Whether a jump enters the scope of a local does not depend on whether gotos are checked. -/
theorem runs_goOn [T.Sound] {f g : Unit → Rule α} (h : ∀ v, T.Runs pre post guilty (f v) (g v)) :
    T.Runs pre post guilty (goOn >>= f) (goOn >>= g) :=
  runs_checked Jumps.checkDeferred id
    (fun jumps => by cases hchecked : jumps.checkDeferred <;> exact hchecked)
    fun jumps v _ => (h v).weaken fun _ hs => hs.1

/-- A label comes to stand in the innermost block. -/
theorem runs_addLabel [T.Sound] {name : String} {token : Token} {f g : Unit → Rule α}
    (h : ∀ v, T.Runs (State.Found since (found.also ⟨fun _ _ => False, [name]⟩)) post guilty (f v) (g v)) :
    T.Runs (State.Found since found) post guilty
      (state >>= fun s => checked (s.jumps.addLabel name token) >>= fun jumps => setJumps jumps >>= f)
      (state >>= fun s => checked (s.jumps.addLabel name token) >>= fun jumps => setJumps jumps >>= g) := by
  refine runs_checked (fun jumps => jumps.addLabel name token) _
    (fun jumps => Jumps.addLabel_checks jumps _ name token) fun jumps jumps' hadded => ?_
  refine ⟨.bind (.of_log fun _ _ => rfl) fun v => (h v).lasting, ?_⟩
  rintro s t hst ⟨hs, rfl⟩
  have hgrows := Jumps.grows_addLabel hs.coherent hadded
  have hfound : State.Found (· = s.jumps) ⟨fun _ _ => False, [name]⟩ { s with jumps := jumps' } :=
    ⟨s.jumps, rfl, hgrows⟩
  refine (h ()).meet _ _ (hst.setJumps ?_ rfl) (hs.also hfound)
  have hsame := Jumps.addLabel_checks s.jumps s.jumps.checksTargets name token
  rw [hadded] at hsame
  rw [Except.ok.inj hsame]
  exact hst.checks

/-- A `goto` comes to wait in the innermost block. -/
theorem runs_addGoto {name : String} {token : Token} {f g : Unit → Rule α}
    (h : ∀ v, T.Runs (State.Found since
      (found.also ⟨fun name' token' => name' = name ∧ token' = token, []⟩)) post guilty (f v) (g v)) :
    T.Runs (State.Found since found) post guilty
      (state >>= fun s => setJumps (s.jumps.addGoto name token) >>= f)
      (state >>= fun s => setJumps (s.jumps.addGoto name token) >>= g) := by
  have hadded := (finds_change (T := T) (·.addGoto name token) _
    (fun _ _ => Jumps.addGoto_checks _ _ _ _) fun _ hcoherent =>
      Jumps.grows_addGoto hcoherent _ _).bind fun v _ _ => h v
  rwa [bind_assoc, bind_assoc] at hadded

end

/-- What a statement that begins with a keyword finds behind it. -/
abbrev Begins (T : Twins) (start : Place) (word : ReservedWord) (r r' : Rule Statement) : Prop :=
  ∀ since found, T.Runs
    (fun s => State.Found since found s ∧ s.previous.start = start ∧ s.previous.value = .keyword word)
    (fun v => State.Found since (found.also (.of T.left [v]))) T.left.BlamesStatement r r'

/-- What makes a statement makes one behind a keyword. -/
theorem Makes.begins {start : Place} {word : ReservedWord} {r r' : Rule Statement} (h : T.Makes r r') :
    T.Begins start word r r' :=
  fun since found => (h since found).weaken fun _ hs => hs.1

variable [T.Sound] {nested nested' : Nested}

/-- A label makes a statement that holds a label. -/
theorem makes_labelStatement (start : Place) : T.Makes (labelStatement start) (labelStatement start) := by
  refine fun since found => .glance fun token => stable_identifier.before fun label label' hname =>
    (Stable.expect _).before fun _ _ _ => ?_
  rw [hname.name_eq]
  refine runs_addLabel fun _ => (stable_placed start).before fun placement placement' hplacement =>
    .give (akin_label hplacement hname) fun s hs => hs.mono ?_
  exact Findings.Within.also ⟨fun _ _ => False.elim, by
    rw [← hname.name_eq]
    exact List.Subset.refl _⟩

/-- A `goto` waits, and begins with a token that is known. -/
theorem runs_gotoRest (start : Place) (token : Token) : T.Runs (State.Found since found)
    (fun v s => token.start = start ∧ token.IsGoto → State.Found since (found.also (.of T.left [v])) s)
    T.left.BlamesStatement
    (do
      let label ← identifier
      setJumps ((← state).jumps.addGoto label.name token)
      return .gotoStatement label (← placed start))
    (do
      let label ← identifier
      setJumps ((← state).jumps.addGoto label.name token)
      return .gotoStatement label (← placed start)) := by
  refine stable_identifier.before fun label label' hname => ?_
  rw [← hname.name_eq]
  refine runs_addGoto fun _ => (runs_placed start).bind fun placement placement' hplacement =>
    .give (akin_goto hplacement hname) ?_
  rintro s ⟨hs, stop, rfl⟩ ⟨rfl, hgoto⟩
  refine hs.mono (Findings.Within.also ⟨?_, List.Subset.refl _⟩)
  rintro _ _ ⟨rfl, rfl⟩
  exact ⟨_, List.mem_singleton_self _, label, stop, rfl, hgoto, .goto⟩

/-- A `goto` begins with the token taken before it. -/
theorem runs_gotoStatement (start : Place) : T.Runs
    (fun s => State.Found since found s ∧ s.previous.start = start ∧ s.previous.IsGoto)
    (fun v => State.Found since (found.also (.of T.left [v]))) T.left.BlamesStatement (gotoStatement start)
    (gotoStatement start) := by
  refine Runs.read State.previous (fun _ _ hst => hst.previous) fun token =>
    (runs_gotoRest start token).given.weaken ?_
  rintro s ⟨⟨hs, hbegins⟩, rfl⟩
  exact ⟨hs, hbegins⟩

/-- A `break` makes a statement that holds nothing. -/
theorem makes_breakStatement (start : Place) : T.Makes (breakStatement start) (breakStatement start) := by
  refine .read fun s t hst => ?_
  rw [hst.isInLoop]
  exact fun _ _ => .ite (runs_plain (fun _ _ h => akin_break h) start fun _ => rfl) (.complain _)

/-- A `return` makes a statement that holds no jumps. -/
theorem makes_returnStatement (hn : T.Fit nested nested') (start : Place) :
    T.Makes (returnStatement nested start) (returnStatement nested' start) := by
  refine fun since found => .glance fun token => .ite ?_ ?_
  · exact runs_plain (fun _ _ h => akin_return h (.refl [])) start fun _ => rfl
  · exact (stable_optionalList hn).before fun _ _ harguments => (Stable.consumed _).before fun _ _ _ =>
      runs_plain (fun _ _ h => akin_return h harguments) start fun _ => rfl

/-! ## Conditions and loops -/

/-- A clause is completed before what is made of it. -/
theorem runs_clauseCompleted {α : Type} [Erasable α] {post : α → State → Prop}
    {guilty : α → ParseError → Prop} {clause clause' : Clause} {f g : Clause → Rule α}
    (h : T.Runs (State.Found since found) post guilty (f clause) (g clause')) :
    T.Runs (State.Found since found) post guilty (clauseCompleted clause >>= f)
      (clauseCompleted clause' >>= g) :=
  (stable_complete (.clause clause) (.clause clause')).before fun _ _ _ => h

/-- A further condition finds what is inside of its body. -/
theorem finds_elseifClause (hn : T.Fit nested nested') :
    T.Finds (fun v => .inside T.left (v.toList.map Clause.body)) innocent (elseifClause nested)
      (elseifClause nested') := by
  refine fun since found => .mark fun start => .weaken (.consume ?_ ?_) fun _ hs => hs.1
  · refine (stable_expression hn).before fun _ _ hcondition => (Stable.expect _).before fun _ _ _ =>
      (finds_scopedBlock hn false).bind fun body body' hbody => (stable_placed start).before
        fun _ _ hplacement => runs_clauseCompleted (.give ?_ fun _ hs => hs)
    exact akin_some.mpr (akin_elseifClause hplacement hcondition hbody)
  · exact .give rfl fun _ hs => hs.mono (Findings.within_also_nothing.trans Findings.inside_nil.also)

/-- What is done otherwise finds what is inside of it. -/
theorem finds_elseClause (hn : T.Fit nested nested') :
    T.Finds (fun v => .inside T.left (v.map Clause.body)) innocent (elseClause nested)
      (elseClause nested') := by
  refine fun since found => .mark fun start => .weaken (.consume ?_ ?_) fun _ hs => hs.1
  · refine (finds_scopedBlock hn false).bind fun body body' hbody => (stable_placed start).before
      fun _ _ hplacement => runs_clauseCompleted (.give ?_ fun _ hs => hs)
    exact akin_cons.mpr ⟨akin_elseClause hplacement hbody, rfl⟩
  · exact .give rfl fun _ hs => hs.mono (Findings.within_also_nothing.trans Findings.inside_nil.also)

/-- A conditional statement holds what is inside of its clauses. -/
theorem makes_ifStatement (hn : T.Fit nested nested') (start : Place) :
    T.Makes (ifStatement nested start) (ifStatement nested' start) := by
  refine fun since found => (stable_expression hn).before fun condition condition' hcondition =>
    (Stable.expect _).before fun _ _ _ => (finds_scopedBlock hn false).bind fun body body' hbody =>
      (stable_placed start).before fun placement placement' hplacement => runs_clauseCompleted ?_
  have hothers : T.Finds (fun v => .inside T.left (v.map Clause.body)) innocent
      (many (elseifClause nested)) (many (elseifClause nested')) :=
    Finds.many (finds_elseifClause hn) fun _ _ => Findings.inside_append
  refine hothers.bind fun others others' hothers => (finds_elseClause hn).bind fun last last' hlast => ?_
  have hclauses := (akin_cons.mpr ⟨akin_ifClause hplacement hcondition hbody, hothers⟩).append hlast
  have hblocks (placement'' : Placement) :
      (Statement.ifStatement (.ifClause condition body placement :: others ++ last) placement'').blocks.map
        Prod.fst = [body] ++ (others.map Clause.body ++ last.map Clause.body) := by
    rw [Statement.blocks, List.map_map, List.map_append]
    rfl
  refine (Stable.expect _).before fun _ _ _ => (runs_compound (fun _ _ h => akin_if h hclauses) start
    hblocks fun _ => rfl).weaken fun s hs => hs.mono ?_
  refine Findings.also_assoc.trans (Findings.also_assoc.trans (Findings.Within.also ?_))
  exact Findings.inside_append.also.trans Findings.inside_append

/-- A loop with its condition in front holds what is inside of its body. -/
theorem makes_whileStatement (hn : T.Fit nested nested') (start : Place) :
    T.Makes (whileStatement nested start) (whileStatement nested' start) :=
  fun _ _ => (stable_expression hn).before fun _ _ hcondition => (Stable.expect _).before
    fun _ _ _ => (finds_scopedBlock hn true).bind fun _ _ hbody => (Stable.expect _).before fun _ _ _ =>
      runs_compound (fun _ _ h => akin_while h hcondition hbody) start (fun _ => rfl) fun _ => rfl

/-- A block of its own holds what is inside of it. -/
theorem makes_doStatement (hn : T.Fit nested nested') (start : Place) :
    T.Makes (scopedBlock nested false >>= fun body => expect ReservedWord.endWord >>= fun _ =>
        placed start >>= fun placement => pure (.doStatement body placement))
      (scopedBlock nested' false >>= fun body => expect ReservedWord.endWord >>= fun _ =>
        placed start >>= fun placement => pure (.doStatement body placement)) :=
  fun _ _ => (finds_scopedBlock hn false).bind fun _ _ hbody => (Stable.expect _).before fun _ _ _ =>
    runs_compound (fun _ _ h => akin_do h hbody) start (fun _ => rfl) fun _ => rfl

/-- The condition of a loop stands in the block of the loop, and finds nothing there. -/
theorem makes_repeatStatement (hn : T.Fit nested nested') (start : Place) :
    T.Makes (repeatStatement nested start) (repeatStatement nested' start) := by
  refine fun since found => stable_openScope.before fun _ _ _ => (runs_openBlock true).bind fun _ _ _ =>
    (finds_statements hn).bind fun body body' hbody => (Stable.expect _).before fun _ _ _ =>
      runs_goOn fun _ => (stable_expression hn).before fun _ _ hcondition => ?_
  refine (runs_closeBlock.weaken fun _ hs => hs.mono Findings.nothing_also).bind fun _ _ _ =>
    stable_closeScope.before fun scope scope' hscope => ?_
  refine (runs_compound (fun _ _ h => akin_repeat h (akin_block hbody hscope) hcondition) start
    (fun _ => rfl) fun _ => rfl).weaken fun _ hs => hs.mono ?_
  exact (Findings.left_of body scope).also

/-- The body of a loop finds what is left when its block closes. -/
theorem finds_loopBody (hn : T.Fit nested nested') :
    T.Finds (fun body => (Findings.of T.left body).left) innocent (loopBody nested) (loopBody nested') := by
  refine fun since found => (runs_openBlock true).bind fun _ _ _ => (finds_statements hn).bind
    fun body body' hbody => ?_
  exact (runs_closeBlock.weaken fun _ hs => hs.mono Findings.nothing_also).bind fun _ _ _ =>
    (Stable.expect _).before fun _ _ _ => .give hbody fun _ hs => hs

/-- A loop over numbers holds what is inside of its body. -/
theorem makes_numericFor (hn : T.Fit nested nested') {counter counter' : Identifier}
    (h : Akin T.erasure counter counter') (start : Place) :
    T.Makes (numericFor nested counter start) (numericFor nested' counter' start) := by
  refine fun since found => (stable_expression hn).before fun _ _ hfirst => (Stable.expect _).before
    fun _ _ _ => (stable_expression hn).before fun _ _ hlast => (stable_commaExpression hn).before
      fun _ _ hstep => (Stable.expect _).before fun _ _ _ => stable_openScope.before fun _ _ _ =>
        (stable_declare h).before fun _ _ hcounter => (finds_loopBody hn).bind fun body body' hbody =>
          stable_closeScope.before fun scope scope' hscope => ?_
  refine (runs_compound (fun _ _ h => akin_numericFor h hcounter hfirst hlast hstep
    (akin_block hbody hscope)) start (fun _ => rfl) fun _ => rfl).weaken fun _ hs => hs.mono ?_
  exact (Findings.left_of body scope).also

theorem stable_commaIdentifier : T.Stable commaIdentifier commaIdentifier :=
  .consume (stable_identifier.bind fun _ _ hname => .give (akin_some.mpr hname)) (.give rfl)

/-- A loop over iterators holds what is inside of its body. -/
theorem makes_genericFor (hn : T.Fit nested nested') {first first' : Identifier}
    (h : Akin T.erasure first first') (start : Place) :
    T.Makes (genericFor nested first start) (genericFor nested' first' start) := by
  refine fun since found => (Stable.many stable_commaIdentifier).before fun _ _ hothers =>
    (Stable.expect _).before fun _ _ _ => (stable_expressionList hn).before fun _ _ hiterators =>
      (Stable.expect _).before fun _ _ _ => stable_openScope.before fun _ _ _ =>
        (stable_declareAll (akin_cons.mpr ⟨h, hothers⟩)).before fun _ _ hnames =>
          (finds_loopBody hn).bind fun body body' hbody =>
            stable_closeScope.before fun scope scope' hscope => ?_
  refine (runs_compound (fun _ _ h => akin_genericFor h hnames hiterators
    (akin_block hbody hscope)) start (fun _ => rfl) fun _ => rfl).weaken fun _ hs => hs.mono ?_
  exact (Findings.left_of body scope).also

/-- Either kind of loop behind `for` holds what is inside of its body. -/
theorem makes_forStatement (hn : T.Fit nested nested') (start : Place) :
    T.Makes (forStatement nested start) (forStatement nested' start) :=
  fun since found => stable_identifier.before fun _ _ hname =>
    .consume (makes_numericFor hn hname start since found) (makes_genericFor hn hname start since found)

/-! ## Declarations -/

theorem stable_recordedDeclarator : T.Stable recordedDeclarator recordedDeclarator :=
  stable_declarator.bind fun name name' hname => by
    rw [hname.identifier.name_eq]
    exact (stable_recordLocal _).bind fun _ _ _ => .give hname

theorem stable_commaDeclarator : T.Stable commaDeclarator commaDeclarator :=
  .consume (stable_recordedDeclarator.bind fun _ _ hname => .give (akin_some.mpr hname)) (.give rfl)

/-- Variables that are akin are declared to what is akin. -/
theorem stable_declareVariables {names names' : List Declarator} (h : Akin T.erasure names names') :
    T.Stable (declareVariables names) (declareVariables names') := by
  induction names generalizing names' with
  | nil =>
    cases names' with
    | nil => exact .give rfl
    | cons => exact absurd h not_akin_nil_cons
  | cons name rest ih =>
    cases names' with
    | nil => exact absurd h not_akin_cons_nil
    | cons name' rest' =>
      obtain ⟨hname, hrest⟩ := akin_cons.mp h
      exact (stable_declare hname.identifier).bind fun _ _ hdeclared => (ih hrest).bind
        fun _ _ hothers => .give (akin_cons.mpr ⟨hname.withIdentifier hdeclared, hothers⟩)

/-- A function that is a statement. -/
theorem makes_function (hn : T.Fit nested nested') {name name' : Expression} (h : Akin T.erasure name name')
    (isLocal isMethod : Bool) (start : Place) :
    T.Makes (functionBody nested (some name) isLocal isMethod start >>= fun function =>
        pure (.functionStatement function))
      (functionBody nested' (some name') isLocal isMethod start >>= fun function =>
        pure (.functionStatement function)) := by
  refine fun since found => (runs_functionBody hn (akin_some.mpr h) isLocal isMethod start).behind ?_ ?_
  · refine fun function function' hfunction => .give (akin_functionStatement hfunction) fun s hs =>
      hs.mono ?_
    exact Findings.within_also_nothing.trans (Findings.nothing_of rfl).also
  · intro function error s u t hblames hrun
    cases hrun
    exact .inl ⟨function, rfl, hblames⟩

/-- A local function holds nothing of its body's. -/
theorem makes_localFunction (hn : T.Fit nested nested') (start : Place) :
    T.Makes (localFunction nested start) (localFunction nested' start) :=
  fun since found => stable_identifier.before fun name name' hname => by
    rw [hname.name_eq]
    exact (stable_recordLocal _).before fun _ _ _ => (stable_declare hname).before fun _ _ hdeclared =>
      makes_function hn (akin_nameExpression hdeclared) true false start since found

/-- Local variables hold no jumps. -/
theorem makes_localVariables (hn : T.Fit nested nested') (start : Place) :
    T.Makes (localVariables nested start) (localVariables nested' start) := by
  refine fun since found => stable_recordedDeclarator.before fun _ _ hfirst =>
    (Stable.many stable_commaDeclarator).before fun _ _ hothers => ?_
  have hnames := stable_declareVariables (T := T) (akin_cons.mpr ⟨hfirst, hothers⟩)
  refine .consume ((stable_expressionList hn).before fun _ _ hvalues => ?_) ?_
  · exact hnames.before fun _ _ hnames =>
      runs_plain (fun _ _ h => akin_local h hnames hvalues) start fun _ => rfl
  · exact hnames.before fun _ _ hnames =>
      runs_plain (fun _ _ h => akin_local h hnames (.refl [])) start fun _ => rfl

/-- What is local holds no jumps. -/
theorem makes_localStatement (hn : T.Fit nested nested') (start : Place) :
    T.Makes (localStatement nested start) (localStatement nested' start) :=
  fun since found => .consume (makes_localFunction hn start since found)
    (makes_localVariables hn start since found)

/-! ## Assignments and calls -/

theorem stable_target (hn : T.Fit nested nested') : T.Stable (target nested) (target nested') := by
  refine .mark fun start => .current fun token => .ite ?_ (.consume ?_ .refuse)
  · exact stable_resolved.bind fun _ _ hname => (stable_suffixes hn (akin_nameExpression hname) start).bind
      fun _ _ hexpression => .give (akin_mk.mpr ⟨hexpression, rfl⟩)
  · exact (stable_parenthesised hn).bind fun _ _ hinner => .current fun token =>
      (stable_suffixes hn hinner start).bind fun _ _ hexpression =>
        .give (akin_mk.mpr ⟨hexpression, rfl⟩)

theorem stable_targetTurn (hn : T.Fit nested nested') : T.Stable (targetTurn nested) (targetTurn nested') :=
  (stable_target hn).bind fun (place, bare) (place', bare') h => by
    obtain ⟨hplace, hbare⟩ := akin_mk.mp h
    obtain rfl := akin_bool.mp hbare
    show T.Stable (if bare || !place.isAssignable then _ else _) (if bare || !place'.isAssignable then _ else _)
    rw [hplace.isAssignable_eq]
    exact .ite .refuse (.consume (.give (akin_more.mpr hplace)) (.give (akin_last.mpr hplace)))

/-- An assignment holds no jumps. -/
theorem makes_assignedValues (hn : T.Fit nested nested') {targets targets' : List Expression}
    (h : Akin T.erasure targets targets') (start : Place) :
    T.Makes (assignedValues nested targets start) (assignedValues nested' targets' start) :=
  fun _ _ => (Stable.expect _).before fun _ _ _ => (stable_expressionList hn).before
    fun _ _ hvalues => runs_plain (fun _ _ hplacement => akin_assignment hplacement h hvalues) start
      fun _ => rfl

/-- An assignment or a call, behind the first operand. -/
theorem makes_assignmentOrCall (hn : T.Fit nested nested') (start : Place) :
    T.Makes (assignmentOrCall nested start) (assignmentOrCall nested' start) :=
  fun since found => (stable_target hn).before fun (first, bare) (first', bare') h => by
    obtain ⟨hfirst, hbare⟩ := akin_mk.mp h
    obtain rfl := akin_bool.mp hbare
    refine .at? fun more => ?_
    simp only [hfirst.isCall_eq, hfirst.isAssignable_eq]
    refine .ite ?_ (.ite .refuse (.ite ?_ ?_))
    · exact runs_plain (fun _ _ hplacement => akin_callStatement hplacement hfirst) start fun _ => rfl
    · exact Stable.advance.before fun _ _ _ => (Stable.repeated (stable_targetTurn hn)).before
        fun _ _ hothers => makes_assignedValues hn (akin_cons.mpr ⟨hfirst, hothers⟩) start since found
    · exact makes_assignedValues hn (akin_cons.mpr ⟨hfirst, rfl⟩) start since found

/-! ## Structures -/

theorem stable_structureEntry : T.Stable structureEntry structureEntry := by
  refine .at? fun _ => .ite (.give rfl) (.mark fun start => ?_)
  refine stable_identifier.bind fun _ _ hkey => (Stable.expect _).bind fun _ _ _ =>
    stable_identifier.bind fun _ _ htype => (stable_placed start).bind fun _ _ hplacement =>
      (stable_complete _ _).bind fun _ _ _ => (Stable.consumed _).bind fun comma comma' hcomma => ?_
  obtain rfl := akin_bool.mp hcomma
  refine .ite ((Stable.consumed _).bind fun _ _ _ => ?_) ?_
  · exact .give (akin_some.mpr (akin_entry hkey htype hplacement))
  · exact .give (akin_some.mpr (akin_entry hkey htype hplacement))

/-- The declaration of a structure holds no jumps. -/
theorem makes_structureDeclaration (start : Place) :
    T.Makes (structureDeclaration start) (structureDeclaration start) :=
  fun _ _ => stable_identifier.before fun _ _ hname => (Stable.many stable_structureEntry).before
    fun _ _ hfields => (Stable.expect _).before fun _ _ _ =>
      runs_plain (fun _ _ h => akin_structure h hname hfields) start fun _ => rfl

/-! ## Statements -/

/-- A keyword that begins a statement has been taken when the statement is read. -/
theorem begins_keywordStatement (hn : T.Fit nested nested') (start : Place) (word : ReservedWord) :
    match keywordStatement nested start word, keywordStatement nested' start word with
    | some rule, some rule' => T.Begins start word rule rule'
    | none, none => True
    | _, _ => False := by
  cases word with
  | localWord => exact (makes_localStatement hn start).begins
  | ifWord => exact (makes_ifStatement hn start).begins
  | returnWord => exact (makes_returnStatement hn start).begins
  | whileWord => exact (makes_whileStatement hn start).begins
  | forWord => exact (makes_forStatement hn start).begins
  | repeatWord => exact (makes_repeatStatement hn start).begins
  | breakWord => exact (makes_breakStatement start).begins
  | doWord => exact (makes_doStatement hn start).begins
  | hstructureWord => exact (makes_structureDeclaration start).begins
  | gotoWord =>
    exact fun since found => (runs_gotoStatement start).weaken fun s hs => ⟨hs.1, hs.2.1, .inl hs.2.2⟩
  | functionWord =>
    refine Makes.begins fun since found => stable_functionName.before fun (name, isMethod) (name', isMethod') h => ?_
    obtain ⟨hname, hmethod⟩ := akin_mk.mp h
    obtain rfl := akin_bool.mp hmethod
    exact makes_function hn hname false isMethod start since found
  | _ => trivial

/-- Where a `goto` stands that is no reserved word, a token stands that begins one. -/
theorem runs_atContextualGoto {α : Type} [Erasable α] {pre : State → Prop} {post : α → State → Prop}
    {guilty : α → ParseError → Prop} {r r' q q' : Rule α}
    (hr : T.Runs (fun s => pre s ∧ s.token.IsGoto) post guilty r r') (hq : T.Runs pre post guilty q q') :
    T.Runs pre post guilty (atContextualGoto >>= fun found => if found = true then r else q)
      (atContextualGoto >>= fun found => if found = true then r' else q') := by
  refine ⟨Lasting.bind (.of_log fun _ _ => rfl) fun _ => .ite hr.lasting hq.lasting, fun s t hst hs => ?_⟩
  show T.Meet post guilty
    ((if T.left.options.has .contextualGoto && s.token.name? == some "goto" &&
      s.lookahead.kind == .identifier then r else q) T.left s)
    ((if T.right.options.has .contextualGoto && t.token.name? == some "goto" &&
      t.lookahead.kind == .identifier then r' else q') T.right t)
  rw [← hst.token, ← hst.lookahead, ← Sound.features (T := T) .contextualGoto (by decide)]
  split
  · next hcontextual =>
    simp only [Bool.and_eq_true, beq_iff_eq] at hcontextual
    exact hr.meet s t hst ⟨hs, Token.isGoto_of_name hcontextual.1.2⟩
  · exact hq.meet s t hst hs

/-- A statement that is not empty is found to hold what its tree says. -/
theorem runs_properStatement (hn : T.Fit nested nested') (start : Place) : T.Runs
    (fun s => State.Found since found s ∧ s.token.start = start)
    (fun v => State.Found since (found.also (.of T.left [v]))) T.left.BlamesStatement
    (properStatement nested start) (properStatement nested' start) := by
  refine .current fun token => ?_
  split
  · next word hword =>
    have hbegins := begins_keywordStatement hn start word
    cases hrule : keywordStatement nested start word with
    | some rule =>
      cases hrule' : keywordStatement nested' start word with
      | some rule' =>
        rw [hrule, hrule'] at hbegins
        refine (Runs.advance ?_).bind fun _ _ _ => hbegins since found
        rintro s _ _ ⟨⟨hs, hstart⟩, rfl⟩
        exact ⟨hs, hstart, hword⟩
      | none =>
        rw [hrule, hrule'] at hbegins
        exact hbegins.elim
    | none =>
      cases hrule' : keywordStatement nested' start word with
      | some rule' =>
        rw [hrule, hrule'] at hbegins
        exact hbegins.elim
      | none => exact (makes_assignmentOrCall hn start since found).weaken fun s hs => hs.1.1
  · refine runs_atContextualGoto ?_ ((makes_assignmentOrCall hn start since found).weaken fun s hs => hs.1.1)
    refine (Runs.advance ?_).bind fun _ _ _ => runs_gotoStatement start
    rintro s _ _ ⟨⟨⟨hs, hstart⟩, -⟩, hgoto⟩
    exact ⟨hs, hstart, hgoto⟩

/-- A statement is found to hold what its tree says, and a function in it may be to blame. -/
theorem finds_statement (hn : T.Fit nested nested') : T.Finds (fun v => .of T.left v.toList)
    (fun v error => ∃ statement, v = some statement ∧ T.left.BlamesStatement statement error)
    (statement nested) (statement nested') := by
  have hsome {pre : State → Prop} {since : Jumps → Prop} {found : Findings} {r r' : Rule Statement}
      (h : T.Runs pre (fun v => State.Found since (found.also (.of T.left [v]))) T.left.BlamesStatement
        r r') : T.Runs pre (fun v => State.Found since (found.also (.of T.left v.toList)))
      (fun v error => ∃ statement, v = some statement ∧ T.left.BlamesStatement statement error)
      (r >>= fun statement => pure (some statement)) (r' >>= fun statement => pure (some statement)) := by
    refine h.behind (fun _ _ hstatement => .give (akin_some.mpr hstatement) fun _ hs => hs) ?_
    intro statement error s u t hblames hrun
    cases hrun
    exact .inl ⟨statement, rfl, hblames⟩
  refine fun since found => .mark fun start => .has (by decide) fun labels => .at? fun colons => .ite ?_
    (.has (by decide) fun empty => .at? fun semicolon => .ite ?_ ?_)
  · refine Runs.weaken (Stable.advance.before fun _ _ _ => ?_) fun _ hs => hs.1
    exact hsome (makes_labelStatement start since found)
  · refine Runs.weaken (Stable.advance.before fun _ _ _ => ?_) fun _ hs => hs.1
    exact .give rfl fun _ hs => hs.mono (Findings.within_also_nothing.trans Findings.of_nil.also)
  · exact runs_goOn fun _ => hsome (runs_properStatement hn start)

end Twins

end LuaSyntax.Grammar
