import LuaSyntax.Proofs.Grammar.Complete.Expression
import LuaSyntax.Proofs.Grammar.Sound.Statement

/-!
# Statements, given

Where a statement is written that may stand there, the rule for it gives it, and the record of jumps is
changed as the walk over the tree says. The first token of a statement selects its rule, and what may
stand there does not fail the checks of the rule.
-/

namespace LuaSyntax

open Writing

variable {dialect : Dialect} {inner : Writing} {flow : Flow} {frame behind : Frame}
  {outer : List Frame} {p q m : Point}

namespace Grammar

open Rule

/-- A rule gives a statement that is neither a label nor empty. -/
def GivesStatement (dialect : Dialect) (r : Rule Statement) (flow : Flow) (frame : Frame)
    (outer : List Frame) (p : Point) (v : Statement) (q : Point) : Prop :=
  r.Gives dialect (flow.within (frame :: outer)) p (Same v)
    (flow.within ((frame.jump (visibleLabels outer) v.escaping).declare v.localCount :: outer)) q

/-- A statement that no jump leaves changes the frame only by what it declares. -/
theorem GivesStatement.straight {r : Rule Statement} {v : Statement} (hescaping : v.escaping = [])
    (h : r.Gives dialect (flow.within (frame :: outer)) p (Same v)
      (flow.within (frame.declare v.localCount :: outer)) q) :
    GivesStatement dialect r flow frame outer p v q := by
  rwa [GivesStatement, hescaping, Frame.jump_nil]

/-! ## Jumps -/

section

variable (start : Place)

/-- A label is read as it is written, if there is none of its name. -/
theorem labelStatement_gives {label : Identifier} {placement : Placement}
    (hlabels : dialect.has .labels = true) (hlabel : p.Names label) (hclose : p.step.Faces Symbol.doubleColon)
    (hnew : label.name ∉ frame.labels) :
    (labelStatement start).Gives dialect (flow.within (frame :: outer)) p
      (Same (Statement.labelStatement label placement))
      (flow.within (frame.label label.name :: outer)) p.step.step := by
  refine .current (.identifier hlabel fun label' hlabel' => .expect hclose (.read fun total s hs => ?_))
  obtain ⟨_, hadded, hshows⟩ := hs.jumps.addLabel hlabels hnew p.token
  rw [hlabel'.name_eq] at hadded
  exact .checked hadded (.setJumps hshows (.quiet (quiet_placed start) fun _ _ =>
    .give (same_label hlabel')))

/-- A `goto` is read as it is written. -/
theorem gotoStatement_gives {label : Identifier} {placement : Placement} (hlabel : p.Names label) :
    GivesStatement dialect (gotoStatement start) flow frame outer p (.gotoStatement label placement)
      p.step := by
  refine .read fun _ _ _ => .identifier hlabel fun label' hlabel' => .read fun _ _ ht => ?_
  have hshows := ht.jumps.addGoto label'.name
  rw [← hlabel'.name_eq] at hshows
  exact .setJumps (hlabel'.name_eq ▸ hshows _) (.quiet (quiet_placed start) fun _ _ =>
    .give (same_goto hlabel'))

/-- A `break` is read as it is written, if it stands in a loop. -/
theorem breakStatement_gives {placement : Placement}
    (hwellFormed : (Statement.breakStatement placement).WellFormed
      ((flow.within (frame :: outer)).situation dialect)) :
    GivesStatement dialect (breakStatement start) flow frame outer p (.breakStatement placement) p :=
  .straight rfl (.read fun _ _ hs => .yes (hs.jumps.isInLoop.trans hwellFormed)
    (.quiet (quiet_placed start) fun _ _ => .give rfl))

end

section

variable {nested : Nested} (hn : nested.Complete dialect inner) (start : Place)

include hn

/-- A `return` is read as it is written. -/
theorem returnStatement_gives {arguments : List Expression} {placement : Placement}
    (h : Returned inner arguments p q)
    (hwellFormed : wellFormedExpressions ((flow.within (frame :: outer)).surroundings dialect) arguments) :
    GivesStatement dialect (returnStatement nested start) flow frame outer p
      (.returnStatement arguments placement) q := by
  refine .straight rfl (.current ?_)
  cases h with
  | nothing hend =>
    exact .yes (beq_iff_eq.mpr hend) (.quiet (quiet_placed start) fun _ _ => .give (same_return (.refl _)))
  | list hend harguments =>
    exact .no (mt beq_iff_eq.mp hend) ((optionalList_gives hn harguments hwellFormed).bind
      fun _ harguments => .skip (.quiet (quiet_placed start) fun _ _ => .give (same_return harguments)))

/-! ## Conditions and loops -/

/-- A block that is no loop may hold what may stand where it stands. -/
theorem plainBlock_gives {body : Block} (h : Statements dialect inner body.statements p q)
    (hwellFormed : body.WellFormed ((flow.within (frame :: outer)).situation dialect) false) :
    (scopedBlock nested false).Gives dialect (flow.within (frame :: outer)) p (Same body)
      (flow.within (frame.jump (visibleLabels outer) body.escaping :: outer)) q :=
  scopedBlock_gives hn h hwellFormed

/-- A further condition is read as it is written, or found to be missing. -/
theorem elseifClause_gives {v : Option Clause} {frame' : Frame}
    (h : ClauseRead dialect inner flow outer v (frame, p) (frame', q)) :
    (elseifClause nested).Gives dialect (flow.within (frame :: outer)) p (Same v)
      (flow.within (frame' :: outer)) q := by
  refine .quiet quiet_mark fun start _ => ?_
  cases v with
  | none =>
    obtain ⟨helseif, rfl, rfl⟩ := h
    exact .unlessConsume helseif (.give rfl)
  | some clause =>
    obtain ⟨rfl, hclause, -, hwellFormed⟩ := h
    obtain ⟨helseif, hcondition, hthen, hbody⟩ := hclause
    refine .ifConsume helseif ((expression_gives hn hcondition hwellFormed.1).bind fun _ hcondition =>
      .expect hthen ((plainBlock_gives hn hbody hwellFormed.2).bind fun _ hbody =>
        .quiet (quiet_placed start) fun _ _ => .quiet (quiet_clauseCompleted _) ?_))
    rintro _ rfl
    exact .give (same_some.mpr (same_elseifClause hcondition hbody))

omit hn in
/-- Further conditions are read one by one. -/
theorem listed_of_clauses {clauses : List Clause} (h : ElseifClauses dialect inner clauses p q)
    (hwellFormed : wellFormedClauses ((flow.within (frame :: outer)).situation dialect) clauses) :
    Listed (ClauseRead dialect inner flow outer) clauses (frame, p)
      (frame.jump (visibleLabels outer) (escapingClauses clauses), q) := by
  induction h generalizing frame with
  | nil helseif => exact .none ⟨helseif, Frame.jump_nil, rfl⟩
  | @cons clause rest _ _ _ hclause _ ih =>
    have helseif : clause.isElseif = true := by
      cases hclause
      rfl
    have hrest := @ih (frame.jump (visibleLabels outer) clause.escaping) hwellFormed.2
    rw [Frame.jump_jump] at hrest
    exact .some ⟨rfl, hclause, helseif, hwellFormed.1⟩ hrest

/-- What is done otherwise is read as it is written, or found to be missing. -/
theorem elseClause_gives {clauses : List Clause} (h : ElseClause dialect inner clauses p q)
    (hwellFormed : wellFormedClauses ((flow.within (frame :: outer)).situation dialect) clauses) :
    (elseClause nested).Gives dialect (flow.within (frame :: outer)) p (Same clauses)
      (flow.within (frame.jump (visibleLabels outer) (escapingClauses clauses) :: outer)) q := by
  refine .quiet quiet_mark fun start _ => ?_
  cases h with
  | none helse =>
    have hflow := congrArg (flow.within <| · :: outer) (@Frame.jump_nil (visibleLabels outer) frame)
    exact .unlessConsume helse (hflow ▸ .give rfl)
  | some helse hbody =>
    rw [escapingClauses, escapingClauses, List.append_nil, Clause.escaping]
    refine .ifConsume helse ((plainBlock_gives hn hbody hwellFormed.1).bind fun _ hbody =>
      .quiet (quiet_placed start) fun _ _ => .quiet (quiet_clauseCompleted _) ?_)
    rintro _ rfl
    exact .give (same_cons.mpr ⟨same_elseClause hbody, .refl _⟩)

/-- All clauses of a conditional statement but the first. -/
theorem clauses_gives {α : Type} {kind : α → Prop} {flow' : Flow} {f : List Clause → List Clause → Rule α}
    {others last : List Clause} {r : Point} (hothers : ElseifClauses dialect inner others p q)
    (hlast : ElseClause dialect inner last q m)
    (hwellFormed : wellFormedClauses ((flow.within (frame :: outer)).situation dialect) others)
    (hwellFormed' : wellFormedClauses ((flow.within (frame :: outer)).situation dialect) last)
    (hf : ∀ others', Same others others' → ∀ last', Same last last' → (f others' last').Gives dialect
      (flow.within ((frame.jump (visibleLabels outer) (escapingClauses others)).jump
        (visibleLabels outer) (escapingClauses last) :: outer)) m kind flow' r) :
    (many (elseifClause nested) >>= fun others => elseClause nested >>= f others).Gives dialect
      (flow.within (frame :: outer)) p kind flow' r := by
  have hlastGives : (elseClause nested).Gives dialect
      (flow.within (frame.jump (visibleLabels outer) (escapingClauses others) :: outer)) q (Same last)
        (flow.within ((frame.jump (visibleLabels outer) (escapingClauses others)).jump
          (visibleLabels outer) (escapingClauses last) :: outer)) m :=
    elseClause_gives hn hlast hwellFormed'
  exact (Gives.many (fun frame => flow.within (frame :: outer))
    (Pairing.elseifClause_advances hn.advances) (fun _ _ _ _ _ => elseifClause_gives hn)
      (listed_of_clauses hothers hwellFormed)).bind fun others' hothers =>
        hlastGives.bind fun last' hlast => hf others' hothers last' hlast

/-- A conditional statement is read as it is written, behind its keyword. -/
theorem ifStatement_gives {condition : Expression} {body : Block} {others last : List Clause}
    {placement placement' : Placement} {r s t : Point} (hcondition : inner.expression 0 condition p q)
    (hthen : q.Faces ReservedWord.thenWord) (hbody : Statements dialect inner body.statements q.step r)
    (hothers : ElseifClauses dialect inner others r s) (hlast : ElseClause dialect inner last s t)
    (hend : t.Faces ReservedWord.endWord)
    (hwellFormed : wellFormedClauses ((flow.within (frame :: outer)).situation dialect)
      (.ifClause condition body placement :: others ++ last)) :
    GivesStatement dialect (ifStatement nested start) flow frame outer p
      (.ifStatement (.ifClause condition body placement :: others ++ last) placement') t.step := by
  rw [wellFormedClauses_iff] at hwellFormed
  obtain ⟨hclauses, hwellFormedLast⟩ := List.forall_mem_append.mp hwellFormed
  obtain ⟨hfirst, hwellFormedOthers⟩ := List.forall_mem_cons.mp hclauses
  have hescaping : (Statement.ifStatement (.ifClause condition body placement :: others ++ last)
      placement').escaping = body.escaping ++ escapingClauses others ++ escapingClauses last := by
    rw [Statement.escaping, List.cons_append, escapingClauses, escapingClauses_append,
      ← List.append_assoc]
    rfl
  rw [GivesStatement, hescaping, ← Frame.jump_jump, ← Frame.jump_jump]
  refine (expression_gives hn hcondition hfirst.1).bind fun _ hcondition => .expect hthen
    ((plainBlock_gives hn hbody hfirst.2).bind fun _ hbody => .quiet (quiet_placed start) fun _ _ =>
      .quiet (quiet_clauseCompleted _) ?_)
  rintro _ rfl
  have hwellFormed' (clauses : List Clause) (h : ∀ clause ∈ clauses, clause.WellFormed
      ((flow.within (frame :: outer)).situation dialect)) : wellFormedClauses ((flow.within
        (frame.jump (visibleLabels outer) body.escaping :: outer)).situation dialect) clauses :=
    wellFormedClauses_iff.mpr h
  exact clauses_gives hn hothers hlast (hwellFormed' others hwellFormedOthers)
    (hwellFormed' last hwellFormedLast) fun _ hothers _ hlast => .expect hend
      (.quiet (quiet_placed start) fun _ _ => .give (same_if
        (Same.append (same_cons.mpr ⟨same_ifClause hcondition hbody, hothers⟩) hlast)))

/-- A loop with its condition in front is read as it is written, behind its keyword. -/
theorem whileStatement_gives {condition : Expression} {body : Block} {placement : Placement} {r : Point}
    (hcondition : inner.expression 0 condition p q) (hdo : q.Faces ReservedWord.doWord)
    (hbody : Statements dialect inner body.statements q.step r) (hend : r.Faces ReservedWord.endWord)
    (hwellFormed : (Statement.whileStatement condition body placement).WellFormed
      ((flow.within (frame :: outer)).situation dialect)) :
    GivesStatement dialect (whileStatement nested start) flow frame outer p
      (.whileStatement condition body placement) r.step := by
  obtain ⟨hwellFormed, hwellFormedBody⟩ := hwellFormed
  have hblock : (scopedBlock nested true).Gives dialect (flow.within (frame :: outer)) q.step (Same body)
      (flow.within (frame.jump (visibleLabels outer) body.escaping :: outer)) r :=
    scopedBlock_gives hn hbody hwellFormedBody
  exact (expression_gives hn hcondition hwellFormed).bind fun _ hcondition => .expect hdo
    (hblock.bind fun _ hbody => .expect hend (.quiet (quiet_placed start) fun _ _ =>
      .give (same_while hcondition hbody)))

/-- A block of its own is read as it is written, behind its keyword. -/
theorem doStatement_gives {body : Block} {placement : Placement}
    (hbody : Statements dialect inner body.statements p q) (hend : q.Faces ReservedWord.endWord)
    (hwellFormed : body.WellFormed ((flow.within (frame :: outer)).situation dialect) false) :
    GivesStatement dialect (do
      let body ← scopedBlock nested false
      expect ReservedWord.endWord
      return .doStatement body (← placed start)) flow frame outer p (.doStatement body placement) q.step :=
  (plainBlock_gives hn hbody hwellFormed).bind fun _ hbody => .expect hend
    (.quiet (quiet_placed start) fun _ _ => .give (same_do hbody))

/-- A loop with its condition behind is read as it is written; the condition sees the locals of the body. -/
theorem repeatStatement_gives {body : Block} {condition : Expression} {placement : Placement} {r : Point}
    (hbody : Statements dialect inner body.statements p q) (huntil : q.Faces ReservedWord.untilWord)
    (hcondition : inner.expression 0 condition q.step r)
    (hwellFormed : (Statement.repeatStatement body condition placement).WellFormed
      ((flow.within (frame :: outer)).situation dialect)) :
    GivesStatement dialect (repeatStatement nested start) flow frame outer p
      (.repeatStatement body condition placement) r := by
  obtain ⟨statements, scope⟩ := body
  obtain ⟨hwellFormedBody, hwellFormed⟩ := hwellFormed
  have hinside : (Block.mk statements scope).WellFormed
      ((flow.within ({ isLoop := true } :: frame :: outer)).situation dialect) true := hwellFormedBody
  obtain ⟨hpasses, hcrossed⟩ := Flow.Passes.of_wellFormed hinside
  have hnames := fun name => @Frame.mem_pending_after name (visibleLabels (frame :: outer)) true
    (.mk statements scope)
  have hgives (frames : List Frame) : (expression nested).Gives dialect (flow.within frames) q.step
      (Same condition) (flow.within frames) r := expression_gives hn hcondition hwellFormed
  refine .quiet quiet_openScope fun _ _ => .openBlock ((statements_gives hn hbody hpasses).bind
    fun _ hbody => .expect huntil (.goOn (hcrossed rfl) ?_))
  exact (hgives _).bind fun _ hcondition => .closeBlock (fun _ => hnames) (.quiet quiet_closeScope fun _ _ => .quiet (quiet_placed start)
      fun _ _ => .give (same_repeat (same_block hbody) hcondition))

/-- The body of a loop whose scope is open already. -/
theorem loopBody_gives {body : Block} (h : Statements dialect inner body.statements p q)
    (hend : q.Faces ReservedWord.endWord) (hwellFormed : body.WellFormed
      ((flow.within (frame :: outer)).situation dialect).loop false) :
    (loopBody nested).Gives dialect (flow.within (frame :: outer)) p (Same body.statements)
      (flow.within (frame.jump (visibleLabels outer) body.escaping :: outer)) q.step := by
  obtain ⟨statements, scope⟩ := body
  exact .innerBlock hn h hwellFormed fun _ hsame => .expect hend (.give hsame)

/-- A loop over numbers is read as it is written, behind its counter. -/
theorem numericFor_gives {counter counter' : Identifier} {first last : Expression}
    {step : Option Expression} {body : Block} {placement : Placement} {r s t : Point}
    (hcounter : Same counter counter') (hfirst : inner.expression 0 first p q)
    (hcomma : q.Faces Symbol.comma) (hlast : inner.expression 0 last q.step r)
    (hstep : LoopStep inner step r s) (hdo : s.Faces ReservedWord.doWord)
    (hbody : Statements dialect inner body.statements s.step t) (hend : t.Faces ReservedWord.endWord)
    (hwellFormed : (Statement.numericFor counter first last step body placement).WellFormed
      ((flow.within (frame :: outer)).situation dialect)) :
    GivesStatement dialect (numericFor nested counter' start) flow frame outer p
      (.numericFor counter first last step body placement) t.step := by
  obtain ⟨hwellFormedFirst, hwellFormedLast, hwellFormedStep, hwellFormedBody⟩ := hwellFormed
  obtain ⟨statements, scope⟩ := body
  have hread : CommaRead (fun v p q => inner.expression 0 v p q ∧
      v.WellFormed ((flow.within (frame :: outer)).surroundings dialect) false) step r s := by
    cases hstep with
    | none hcomma => exact ⟨hcomma, rfl⟩
    | some hcomma hvalue => exact ⟨hcomma, hvalue, hwellFormedStep⟩
  refine (expression_gives hn hfirst hwellFormedFirst).bind fun _ hfirst => .expect hcomma
    ((expression_gives hn hlast hwellFormedLast).bind fun _ hlast =>
      (commaExpression_gives hn hread).bind fun _ hstep => .expect hdo (.quiet quiet_openScope fun _ _ =>
        .quiet (quiet_declare counter') fun _ hdeclared => ?_))
  exact (loopBody_gives hn hbody hend hwellFormedBody).bind fun _ hbody =>
    .quiet quiet_closeScope fun _ _ => .quiet (quiet_placed start) fun _ _ =>
      .give (same_numericFor (hcounter.trans hdeclared) hfirst hlast hstep (same_block hbody))

omit hn in
/-- A comma and a name are read as they are written. -/
theorem commaIdentifier_gives {v : Option Identifier} (h : CommaRead Name v p q) :
    commaIdentifier.Gives dialect flow p (Same v) flow q := by
  cases v with
  | none =>
    obtain ⟨hcomma, rfl⟩ := h
    exact .unlessConsume hcomma (.give rfl)
  | some name =>
    obtain ⟨hcomma, ⟨hname⟩⟩ := h
    exact .ifConsume hcomma (.identifier hname fun _ hname => .give (same_some.mpr hname))

/-- A loop over iterators is read as it is written, behind its first name. -/
theorem genericFor_gives {first first' : Identifier} {others : List Identifier}
    {iterators : List Expression} {body : Block} {placement : Placement} {r s : Point}
    (hfirst : Same first first') (hothers : Commas Name others p q) (hin : q.Faces ReservedWord.inWord)
    (hiterators : Row (inner.expression 0) iterators q.step r) (hdo : r.Faces ReservedWord.doWord)
    (hbody : Statements dialect inner body.statements r.step s) (hend : s.Faces ReservedWord.endWord)
    (hwellFormed : (Statement.genericFor (first :: others) iterators body placement).WellFormed
      ((flow.within (frame :: outer)).situation dialect)) :
    GivesStatement dialect (genericFor nested first' start) flow frame outer p
      (.genericFor (first :: others) iterators body placement) s.step := by
  obtain ⟨-, -, hwellFormedIterators, hwellFormedBody⟩ := hwellFormed
  obtain ⟨statements, scope⟩ := body
  refine (Gives.manyReads Pairing.commaIdentifier_advances (fun _ _ _ => commaIdentifier_gives)
    (listed_of_commas hothers)).bind fun others' hothers => .expect hin
      ((expressionList_gives hn hiterators hwellFormedIterators).bind fun _ hiterators => .expect hdo
        (.quiet quiet_openScope fun _ _ => .quiet (quiet_declareAll _) fun _ hnames => ?_))
  have hnames := (same_cons.mpr ⟨hfirst, hothers⟩).trans hnames
  exact (loopBody_gives hn hbody hend hwellFormedBody).bind fun _ hbody =>
    .quiet quiet_closeScope fun _ _ => .quiet (quiet_placed start) fun _ _ =>
      .give (same_genericFor hnames hiterators (same_block hbody))

/-- A loop is taken for one over numbers where a sign of assignment follows its name. -/
theorem forStatement_gives_numeric {counter : Identifier} {first last : Expression}
    {step : Option Expression} {body : Block} {placement : Placement} {r s t : Point}
    (hcounter : p.Names counter) (hassign : p.step.Faces Symbol.assign)
    (hfirst : inner.expression 0 first p.step.step q)
    (hcomma : q.Faces Symbol.comma) (hlast : inner.expression 0 last q.step r)
    (hstep : LoopStep inner step r s) (hdo : s.Faces ReservedWord.doWord)
    (hbody : Statements dialect inner body.statements s.step t) (hend : t.Faces ReservedWord.endWord)
    (hwellFormed : (Statement.numericFor counter first last step body placement).WellFormed
      ((flow.within (frame :: outer)).situation dialect)) :
    GivesStatement dialect (forStatement nested start) flow frame outer p
      (.numericFor counter first last step body placement) t.step :=
  .identifier hcounter fun _ hcounter => .ifConsume hassign
    (numericFor_gives hn start hcounter hfirst hcomma hlast hstep hdo hbody hend hwellFormed)

/-- A loop is taken for one over iterators where none follows. -/
theorem forStatement_gives_generic {names : List Identifier} {iterators : List Expression}
    {body : Block} {placement : Placement} {r s : Point} (hnames : Row Name names p q)
    (hin : q.Faces ReservedWord.inWord) (hiterators : Row (inner.expression 0) iterators q.step r)
    (hdo : r.Faces ReservedWord.doWord) (hbody : Statements dialect inner body.statements r.step s)
    (hend : s.Faces ReservedWord.endWord)
    (hwellFormed : (Statement.genericFor names iterators body placement).WellFormed
      ((flow.within (frame :: outer)).situation dialect)) :
    GivesStatement dialect (forStatement nested start) flow frame outer p
      (.genericFor names iterators body placement) s.step := by
  obtain ⟨⟨hfirst⟩, hothers⟩ := hnames
  refine .identifier hfirst fun _ hfirst => .unlessConsume ?_
    (genericFor_gives hn start hfirst hothers hin hiterators hdo hbody hend hwellFormed)
  cases hothers with
  | nil => exact hin.not_faces (by decide)
  | cons hcomma => exact hcomma.not_faces (by decide)

/-! ## Declarations -/

omit hn in
/-- A declared name is read as it is written, and its jumps are told of a local. -/
theorem recordedDeclarator_gives {name : Declarator} (h : Declared dialect name p q) :
    recordedDeclarator.Gives dialect (flow.within (frame :: outer)) p (Same name)
      (flow.within (frame.declare 1 :: outer)) q :=
  (declarator_gives h).bind fun _ hname => .recordLocal (.give hname)

omit hn in
/-- A comma and a declared name are read as they are written. -/
theorem commaDeclarator_gives {v : Option Declarator} {frame' : Frame}
    (h : CommaDeclaratorRead dialect v (frame, p) (frame', q)) :
    commaDeclarator.Gives dialect (flow.within (frame :: outer)) p (Same v)
      (flow.within (frame' :: outer)) q := by
  obtain ⟨rfl, hread⟩ := h
  cases v with
  | none =>
    obtain ⟨hcomma, hpoint⟩ := hread
    cases hpoint
    exact .unlessConsume hcomma (.give rfl)
  | some name =>
    obtain ⟨hcomma, hname⟩ := hread
    exact .ifConsume hcomma ((recordedDeclarator_gives hname).bind fun _ hname =>
      .give (same_some.mpr hname))

omit hn in
/-- Names behind commas are recorded one by one. -/
theorem listed_of_declarators {names : List Declarator} (h : Commas (Declared dialect) names p q) :
    Listed (CommaDeclaratorRead dialect) names (frame, p) (frame.declare names.length, q) := by
  induction h generalizing frame with
  | nil hcomma => exact .none ⟨rfl, hcomma, rfl⟩
  | @cons name rest _ _ _ hcomma hname _ ih =>
    have hrest := @ih (frame.declare 1)
    rw [Frame.declare_declare, Nat.add_comm] at hrest
    exact .some ⟨rfl, hcomma, hname⟩ hrest

/-- A local function is read as it is written, behind its keyword. -/
theorem localFunction_gives {name : Identifier} {parameters : List Parameter} {body : Block}
    {placement : Placement} (hname : p.Names name)
    (h : FunctionBody dialect inner (.mk (some (.identifier name)) true parameters body placement)
      p.step q)
    (hwellFormed : (Function.mk (some (.identifier name)) true parameters body placement).WellFormed
      (flow.surroundings dialect)) :
    GivesStatement dialect (localFunction nested start) flow frame outer p
      (.functionStatement (.mk (some (.identifier name)) true parameters body placement)) q := by
  refine .straight rfl (.identifier hname fun _ hname => .recordLocal (.quiet (quiet_declare _)
    fun _ hdeclared => ?_))
  have hsame := same_some.mpr (same_nameExpression (hname.trans hdeclared))
  have hgives (frames : List Frame) : (functionBody nested _ true false start).Gives dialect
      (flow.within frames) p.step (Same (Function.mk (some (.identifier name)) true parameters body
        placement)) (flow.within frames) q := functionBody_gives hn false start hsame h hwellFormed
  exact (hgives _).bind fun _ hfunction => .give (same_functionStatement hfunction)

/-- Local variables are read as they are written; they are declared behind their values. -/
theorem localVariables_gives {names : List Declarator} {values : List Expression} {placement : Placement}
    (hnames : Row (Declared dialect) names p q) (hvalues : InitialValues inner values q m)
    (hwellFormed : wellFormedExpressions (flow.surroundings dialect) values) :
    GivesStatement dialect (localVariables nested start) flow frame outer p
      (.localStatement names values placement) m := by
  obtain ⟨hfirst, hothers⟩ := hnames
  refine .straight rfl ((recordedDeclarator_gives hfirst).bind fun _ hfirst =>
    (Gives.many (fun frame => flow.within (frame :: outer)) Pairing.commaDeclarator_advances
      (fun _ _ _ _ _ => commaDeclarator_gives) (listed_of_declarators hothers)).bind fun _ hothers => ?_)
  rw [Frame.declare_declare, Nat.add_comm]
  have hgives (frames : List Frame) {p q : Point} (h : Row (inner.expression 0) values p q) :
      (expressionList nested).Gives dialect (flow.within frames) p (Same values) (flow.within frames) q :=
    expressionList_gives hn h hwellFormed
  have hnames := same_cons.mpr ⟨hfirst, hothers⟩
  cases hvalues with
  | none hassign =>
    have hnone : (pure [] : Rule (List Expression)).Quiet (Same []) := quiet_give rfl
    exact .unlessConsume hassign (.quiet hnone fun _ hvalues => .quiet (quiet_declareVariables _)
      fun _ hdeclared => .quiet (quiet_placed start) fun _ _ =>
        .give (same_local (hnames.trans hdeclared) hvalues))
  | some hassign hvalues =>
    exact .ifConsume hassign ((hgives _ hvalues).bind fun _ hvalues =>
      .quiet (quiet_declareVariables _) fun _ hdeclared => .quiet (quiet_placed start) fun _ _ =>
        .give (same_local (hnames.trans hdeclared) hvalues))

/-- A function statement is read as it is written, behind its keyword. -/
theorem functionStatement_gives {name : Expression} {parameters : List Parameter} {body : Block}
    {placement : Placement} (hname : FunctionName name p q)
    (h : FunctionBody dialect inner (.mk (some name) false parameters body placement) q m)
    (hwellFormed : (Function.mk (some name) false parameters body placement).WellFormed
      (flow.surroundings dialect)) :
    GivesStatement dialect (do
      let (name, isMethod) ← functionName
      return Statement.functionStatement (← functionBody nested (some name) false isMethod start))
        flow frame outer p (.functionStatement (.mk (some name) false parameters body placement)) m := by
  have hparen : q.Faces Symbol.leftParen := by
    obtain ⟨hparameters, -, -⟩ := h
    cases hparameters with
    | none hleft => exact hleft
    | some hleft => exact hleft
  refine .straight rfl ((functionName_gives hname hparen).bind fun name' hname => ?_)
  have hgives (frames : List Frame) : (functionBody nested (some name'.1) false name'.2 start).Gives dialect
      (flow.within frames) q (Same (Function.mk (some name) false parameters body placement))
      (flow.within frames) m :=
    functionBody_gives hn name'.2 start (same_some.mpr hname) h hwellFormed
  exact (hgives _).bind fun _ hfunction => .give (same_functionStatement hfunction)

/-! ## Assignments and calls -/

/-- What an assignment or a call begins with. -/
theorem target_gives {bare : Bool} {v : Expression} (h : Suffixed dialect inner bare v p q)
    (hwellFormed : v.WellFormed (flow.surroundings dialect) false) :
    (target nested).Gives dialect flow p (fun v' => Same v v'.1 ∧ v'.2 = bare) flow q := by
  refine .quiet quiet_mark fun start _ => .current ?_
  cases h with
  | name hname hsuffixes hstop =>
    exact .yes (beq_iff_eq.mpr (kind_of_names hname)) (.resolved hname fun _ hname =>
      (suffixes_gives hn start (same_nameExpression hname) rfl hsuffixes hstop hwellFormed).bind
        fun _ hv => .give ⟨hv, rfl⟩)
  | enclosed henclosed hsuffixes hstop =>
    obtain ⟨hleft, hvalue, hright⟩ := henclosed
    have hmethod := hn.isMethod hvalue
    have hbase := (hsuffixes.back hmethod hwellFormed).1
    refine .no (fun hkind => ?_) (.ifConsume hleft
      ((parenthesised_gives hn (.mk hleft hvalue hright) hbase).bind fun _ hbase => .current
        ((suffixes_gives hn start hbase hmethod hsuffixes hstop hwellFormed).bind
          fun _ hv => .give ⟨hv, rfl⟩)))
    rw [Token.kind, show p.token.value = _ from hleft] at hkind
    cases hkind

/-- A comma and a target are read as they are written. -/
theorem targetTurn_gives {v : Turn Expression}
    (h : TargetTurnRead (fun target p q => Target dialect inner target p q ∧
      target.WellFormed (flow.surroundings dialect) false) v p q) :
    (targetTurn nested).Gives dialect flow p (Same v) flow q := by
  have hgives {target : Expression} {m : Point} (h : Target dialect inner target p m)
      (hwellFormed : target.WellFormed (flow.surroundings dialect) false) :
      (Grammar.target nested).Gives dialect flow p
        (fun v => Same target v.1 ∧ (v.2 || !v.1.isAssignable) = false) flow m := by
    obtain ⟨hwritten, hassignable⟩ := h
    refine (target_gives hn hwritten hwellFormed).mono fun v ⟨hsame, hbare⟩ => ⟨hsame, ?_⟩
    rw [hbare, ← hsame.isAssignable_eq, hassignable]
    rfl
  cases v with
  | stop => exact h.elim
  | last target =>
    obtain ⟨⟨htarget, hwellFormed⟩, hcomma⟩ := h
    exact (hgives htarget hwellFormed).bind fun _ hv => .no (ne_true_of_eq_false hv.2)
      (.unlessConsume hcomma (.give (same_last.mpr hv.1)))
  | more target =>
    obtain ⟨m, ⟨htarget, hwellFormed⟩, hcomma, rfl⟩ := h
    exact (hgives htarget hwellFormed).bind fun _ hv => .no (ne_true_of_eq_false hv.2)
      (.ifConsume hcomma (.give (same_more.mpr hv.1)))

omit hn in
/-- Targets behind the first are read in turns. -/
theorem turned_of_targets {item : Expression → Point → Point → Prop} {target : Expression}
    {others : List Expression} (h : item target p m) (hothers : Commas item others m q) :
    Turned (TargetTurnRead item) (target :: others) p q := by
  induction hothers generalizing p target with
  | nil hcomma => exact .last ⟨h, hcomma⟩
  | cons hcomma hnext _ ih => exact .more ⟨_, h, hcomma, rfl⟩ (ih hnext)

/-- The values of an assignment are read as they are written, behind its targets. -/
theorem assignedValues_gives {targets targets' values : List Expression} {placement : Placement}
    (htargets : Same targets targets') (hassign : p.Faces Symbol.assign)
    (hvalues : Row (inner.expression 0) values p.step q)
    (hwellFormed : wellFormedExpressions (flow.surroundings dialect) values) :
    (assignedValues nested targets' start).Gives dialect flow p
      (Same (Statement.assignment targets values placement)) flow q :=
  .expect hassign ((expressionList_gives hn hvalues hwellFormed).bind fun _ hvalues =>
    .quiet (quiet_placed start) fun _ _ => .give (same_assignment htargets hvalues))

/-- An assignment is read as it is written. -/
theorem assignment_gives {targets values : List Expression} {placement : Placement}
    (htargets : Row (Target dialect inner) targets p q) (hassign : q.Faces Symbol.assign)
    (hvalues : Row (inner.expression 0) values q.step m)
    (hwellFormed : (Statement.assignment targets values placement).WellFormed
      ((flow.within (frame :: outer)).situation dialect)) :
    GivesStatement dialect (assignmentOrCall nested start) flow frame outer p
      (.assignment targets values placement) m := by
  obtain ⟨-, -, -, hwellFormedTargets, hwellFormedValues⟩ := hwellFormed
  obtain ⟨hfirst, hothers⟩ := htargets.with (wellFormedExpressions_iff.mp hwellFormedTargets)
  obtain ⟨⟨hwritten, hassignable⟩, hwellFormed⟩ := hfirst
  refine .straight rfl ((target_gives hn hwritten hwellFormed).bind fun ⟨first, bare⟩ hfirst => .at? ?_)
  obtain ⟨hfirst, rfl⟩ := hfirst
  rw [hfirst.isAssignable_eq] at hassignable
  have hcall : first.isCall = false := by
    cases first <;> first | rfl | cases hassignable
  refine .no (by simp [hcall]) (.no (by simp [hassignable]) ?_)
  cases hothers with
  | nil hcomma =>
    exact .no (by simpa using hcomma) (assignedValues_gives hn start (same_cons.mpr ⟨hfirst, .refl _⟩)
      hassign hvalues hwellFormedValues)
  | cons hcomma hnext hothers =>
    refine .yes (by simpa using hcomma) (.advance hcomma.isEnd_eq
      ((Gives.repeatedReads (Pairing.targetTurn_advances hn.advances)
        (fun _ _ _ => targetTurn_gives hn) (turned_of_targets hnext hothers)).bind fun _ hothers => ?_))
    exact assignedValues_gives hn start (same_cons.mpr ⟨hfirst, hothers⟩) hassign hvalues
      hwellFormedValues

/-- A call is read as it is written, if neither a comma nor an assignment follows. -/
theorem callStatement_gives {call : Expression} {placement : Placement}
    (h : Suffixed dialect inner false call p q) (hcall : call.isCall = true)
    (hcomma : ¬ q.Faces Symbol.comma)
    (hwellFormed : call.WellFormed ((flow.within (frame :: outer)).surroundings dialect) false) :
    GivesStatement dialect (assignmentOrCall nested start) flow frame outer p
      (.callStatement call placement) q := by
  refine .straight rfl ((target_gives hn h hwellFormed).bind fun ⟨call', bare⟩ hsame => .at? ?_)
  obtain ⟨hsame, rfl⟩ := hsame
  rw [hsame.isCall_eq] at hcall
  exact .yes (by simp [hcall, hcomma]) (.quiet (quiet_placed start) fun _ _ =>
    .give (same_callStatement hsame))

/-! ## Structures -/

omit hn in
/-- An entry of a structure is read as it is written, or found to be missing. -/
theorem structureEntry_gives {v : Option StructureEntry} (h : EntryRead v p q) :
    structureEntry.Gives dialect flow p (Same v) flow q := by
  cases v with
  | none =>
    obtain ⟨hend, rfl⟩ := h
    exact .ifAt hend (.give rfl)
  | some entry =>
    obtain ⟨m, ⟨hkey, hcolon, htype⟩, rfl⟩ := h
    refine .unlessAt hkey.not_faces (.quiet quiet_mark fun start _ => .identifier hkey fun _ hkey =>
      .expect hcolon (.identifier htype fun _ htype => .quiet (quiet_placed start) fun _ _ =>
        .quiet (quiet_complete _) fun _ _ => ?_))
    rw [behindEntry]
    split
    · next hcomma =>
      exact .consume_yes hcomma (.no (by decide) (.give (same_some.mpr (same_entry hkey htype))))
    · next hcomma =>
      exact .consume_no hcomma (.yes rfl (.skip (.give (same_some.mpr (same_entry hkey htype)))))

omit hn in
/-- Entries that are written in a row are read item by item. -/
theorem listed_of_entries {fields : List StructureEntry} (h : Entries fields p q) :
    Listed EntryRead fields p q := by
  induction h with
  | nil hend => exact .none ⟨hend, rfl⟩
  | cons hentry _ ih => exact .some ⟨_, hentry, rfl⟩ ih

omit hn in
/-- The declaration of a structure is read as it is written, behind its keyword. -/
theorem structureDeclaration_gives {name : Identifier} {fields : List StructureEntry}
    {placement : Placement} (hname : p.Names name) (hfields : Entries fields p.step q)
    (hend : q.Faces ReservedWord.endWord) :
    GivesStatement dialect (structureDeclaration start) flow frame outer p
      (.structureDeclaration name fields placement) q.step :=
  .straight rfl (.identifier hname fun _ hname => (Gives.manyReads Pairing.structureEntry_advances
    (fun _ _ _ => structureEntry_gives) (listed_of_entries hfields)).bind fun _ hfields =>
      .expect hend (.quiet (quiet_placed start) fun _ _ => .give (same_structure hname hfields)))

/-! ## Statements -/

omit hn in
/-- A keyword that begins a statement selects its rule. -/
theorem properStatement_of_keyword {word : ReservedWord} {r : Rule Statement} {v : Statement}
    (hfaces : p.Faces word) (hrule : keywordStatement nested start word = some r)
    (h : GivesStatement dialect r flow frame outer p.step v q) :
    GivesStatement dialect (properStatement nested start) flow frame outer p v q := by
  refine .current ?_
  rw [show p.token.value = .keyword word from hfaces]
  simp only [hrule]
  exact .advance hfaces.isEnd_eq h

omit hn in
/-- A rule that asks whether a contextual `goto` stands here is told so. -/
theorem atContextualGoto_gives : atContextualGoto.Gives dialect flow p
    (fun v => v = true ↔ p.FacesContextualGoto dialect) flow p := by
  refine .read fun total s hs => .has (.give ?_)
  rw [hs.token, hs.lookahead, Bool.and_eq_true, Bool.and_eq_true, beq_iff_eq, beq_iff_eq, and_assoc]
  rfl

omit hn in
/-- What begins with no keyword is an assignment or a call if it is no `goto`. -/
theorem properStatement_of_target {v : Statement} (hgoto : ¬ p.FacesContextualGoto dialect)
    (hbegins : (∃ name, p.token.value = .identifier name) ∨ p.Faces Symbol.leftParen)
    (h : GivesStatement dialect (assignmentOrCall nested start) flow frame outer p v q) :
    GivesStatement dialect (properStatement nested start) flow frame outer p v q := by
  refine .current ?_
  have hother : ∀ found : Bool, (found = true ↔ p.FacesContextualGoto dialect) → (if found = true then
      advance >>= fun _ => gotoStatement start else assignmentOrCall nested start).Gives dialect
        (flow.within (frame :: outer)) p (Same v)
          (flow.within ((frame.jump (visibleLabels outer) v.escaping).declare v.localCount :: outer)) q :=
    fun found hfound => .no (fun hyes => hgoto (hfound.mp hyes)) h
  rcases hbegins with ⟨name, hname⟩ | hleft
  · rw [hname]
    exact atContextualGoto_gives.bind hother
  · rw [show p.token.value = _ from hleft]
    exact atContextualGoto_gives.bind hother

omit hn in
/-- A `goto` is a keyword, or a name where the dialect and the token behind it make it one. -/
theorem properStatement_of_goto {label : Identifier} {placement : Placement}
    (hgoto : p.Faces ReservedWord.gotoWord ∨ p.FacesContextualGoto dialect) (hlabel : p.step.Names label) :
    GivesStatement dialect (properStatement nested start) flow frame outer p
      (.gotoStatement label placement) p.step.step := by
  rcases hgoto with hgoto | hgoto
  · exact properStatement_of_keyword start hgoto rfl (gotoStatement_gives start hlabel)
  · have hname : p.Names { name := "goto", placement := .none } := hgoto.2.1
    obtain ⟨name, hvalue⟩ := Token.value_of_kind (kind_of_names hname)
    refine .current ?_
    rw [hvalue]
    exact atContextualGoto_gives.bind fun found hfound => .yes (hfound.mpr hgoto)
      (.advance hname.isEnd_eq (gotoStatement_gives start hlabel))

/-- A statement that is neither a label nor empty is read as it is written. -/
theorem properStatement_gives {v : Statement} (h : ProperStatement dialect inner v p q)
    (hwellFormed : v.WellFormed ((flow.within (frame :: outer)).situation dialect)) :
    GivesStatement dialect (properStatement nested start) flow frame outer p v q := by
  cases h with
  | breakStatement h => exact properStatement_of_keyword start h rfl (breakStatement_gives start hwellFormed)
  | gotoStatement h hlabel => exact properStatement_of_goto start h hlabel
  | returnStatement h harguments =>
    exact properStatement_of_keyword start h rfl (returnStatement_gives hn start harguments hwellFormed)
  | ifStatement h hcondition hthen hbody hothers hlast hend =>
    exact properStatement_of_keyword start h rfl
      (ifStatement_gives hn start hcondition hthen hbody hothers hlast hend hwellFormed.2)
  | whileStatement h hcondition hdo hbody hend =>
    exact properStatement_of_keyword start h rfl
      (whileStatement_gives hn start hcondition hdo hbody hend hwellFormed)
  | doStatement h hbody hend =>
    exact properStatement_of_keyword start h rfl (doStatement_gives hn start hbody hend hwellFormed)
  | repeatStatement h hbody huntil hcondition =>
    exact properStatement_of_keyword start h rfl
      (repeatStatement_gives hn start hbody huntil hcondition hwellFormed)
  | localFunction h hfunction hname hbody =>
    exact properStatement_of_keyword start h rfl (.ifConsume hfunction
      (localFunction_gives hn start hname hbody hwellFormed.2))
  | localVariables h hnames hvalues =>
    refine properStatement_of_keyword start h rfl (.unlessConsume ?_
      (localVariables_gives hn start hnames hvalues hwellFormed.2.2))
    obtain ⟨hfirst, -⟩ := hnames
    exact (names_of_declared hfirst).not_faces
  | assignment hgoto htargets hassign hvalues =>
    refine properStatement_of_target start hgoto ?_
      (assignment_gives hn start htargets hassign hvalues hwellFormed)
    obtain ⟨⟨hfirst, -⟩, -⟩ := htargets
    exact hfirst.begins
  | callStatement hgoto hcall hisCall hcomma =>
    exact properStatement_of_target start hgoto hcall.begins
      (callStatement_gives hn start hcall hisCall hcomma hwellFormed.2)
  | functionStatement h hname hbody =>
    exact properStatement_of_keyword start h rfl (functionStatement_gives hn start hname hbody hwellFormed.2)
  | numericFor h hcounter hassign hfirst hcomma hlast hstep hdo hbody hend =>
    exact properStatement_of_keyword start h rfl (forStatement_gives_numeric hn start hcounter hassign
      hfirst hcomma hlast hstep hdo hbody hend hwellFormed)
  | genericFor h hnames hin hiterators hdo hbody hend =>
    exact properStatement_of_keyword start h rfl
      (forStatement_gives_generic hn start hnames hin hiterators hdo hbody hend hwellFormed)
  | structureDeclaration h hname hfields hend =>
    exact properStatement_of_keyword start h rfl (structureDeclaration_gives start hname hfields hend)

omit start in
/-- Every statement is read as it is written, and an empty one is left out. -/
theorem statement_gives {v : Option Statement} (h : OptionalStatement dialect inner v p q)
    (hpasses : flow.Passes dialect outer frame v.toList behind) :
    (statement nested).Gives dialect (flow.within (frame :: outer)) p (Same v)
      (flow.within (behind :: outer)) q := by
  obtain ⟨rfl, hadmits, hwellFormed⟩ := hpasses
  refine .quiet quiet_mark fun start _ => .has (.at? ?_)
  cases h with
  | empty hempty hsemicolon =>
    refine .no ?_ (.has (.at? (.yes ?_ (.advance hsemicolon.isEnd_eq (.give rfl)))))
    · rw [decide_eq_false (hsemicolon.not_faces (by decide)), Bool.and_false]
      exact Bool.false_ne_true
    · rw [hempty, decide_eq_true hsemicolon]
      rfl
  | label hlabels hopen hlabel hclose =>
    refine .yes ?_ (.advance hopen.isEnd_eq ((labelStatement_gives start hlabels hlabel hclose
      (hadmits hlabels).1).bind fun _ hsame => .give (same_some.mpr hsame)))
    rw [hlabels, decide_eq_true hopen]
    rfl
  | proper h =>
    obtain ⟨hcolons, hsemicolon⟩ := h.not_faces
    have hlabel := label?_eq_none h
    have hbehind := properStatement_gives hn start h hwellFormed.1
    refine .no ?_ (.has (.at? (.no ?_ (.goOn (fun hlabels => ?_) ?_))))
    · rw [decide_eq_false hcolons, Bool.and_false]
      exact Bool.false_ne_true
    · rw [decide_eq_false hsemicolon, Bool.and_false]
      exact Bool.false_ne_true
    · have hadmitted := (hadmits hlabels).1
      rwa [Frame.Admits, hlabel] at hadmitted
    · rw [Option.toList, Frame.after, List.foldl_cons, List.foldl_nil, Frame.behind, hlabel]
      exact Gives.bind hbehind fun _ hsame => .give (same_some.mpr hsame)

end

end Grammar

end LuaSyntax
