import LuaSyntax.Proofs.Grammar.Lockstep.Statement
import LuaSyntax.Proofs.Grammar.Sound.Expression

/-!
# Statements, read

What the rule for a statement has read is written as the tree says and may stand where it stands, and
the frame behind it is what the walk over the tree makes of the frame before it.

Most rules begin behind the keyword of their statement. What they have read is said of the point before
the keyword.
-/

namespace LuaSyntax

open Writing

variable {dialect : Dialect} {flow : Flow} {frame : Frame} {outer : List Frame} {p q : Point}

/-! ## Names up to places -/

namespace Writing

variable {α : Type} [Blurred α] {item : α → Point → Point → Prop} {items items' : List α}

/-- What is written behind commas is written for everything that is the same. -/
theorem Commas.of_same (hitem : ∀ a a' p q, item a p q → Same a a' → item a' p q)
    (h : Commas item items p q) (hsame : Same items items') : Commas item items' p q := by
  induction h generalizing items' with
  | nil hcomma =>
    cases items' with
    | nil => exact .nil hcomma
    | cons => exact absurd hsame not_same_nil_cons
  | cons hcomma ha _ ih =>
    cases items' with
    | nil => exact absurd hsame not_same_cons_nil
    | cons =>
      obtain ⟨hfirst, hrest⟩ := same_cons.mp hsame
      exact .cons hcomma (hitem _ _ _ _ ha hfirst) (ih hrest)

/-- A row is written for everything that is the same. -/
theorem Row.of_same (hitem : ∀ a a' p q, item a p q → Same a a' → item a' p q)
    (h : Row item items p q) (hsame : Same items items') : Row item items' p q := by
  obtain ⟨ha, hrest⟩ := h
  cases items' with
  | nil => exact absurd hsame not_same_cons_nil
  | cons =>
    obtain ⟨hfirst, hothers⟩ := same_cons.mp hsame
    exact .mk (hitem _ _ _ _ ha hfirst) (hrest.of_same hitem hothers)

/-- A name is written for every name that is the same. -/
theorem Name.of_same {name name' : Identifier} (h : Name name p q) (hsame : Same name name') :
    Name name' p q := by
  obtain ⟨h⟩ := h
  exact .mk (h.of_same hsame)

/-- Declared names in a row have types only where the dialect has types. -/
theorem Row.fits {names : List Declarator} (h : Row (Declared dialect) names p q) :
    ∀ name ∈ names, name.Fits dialect := by
  have hcommas {names : List Declarator} {p q : Point} (h : Commas (Declared dialect) names p q) :
      ∀ name ∈ names, name.Fits dialect := by
    induction h with
    | nil => exact List.forall_mem_nil _
    | cons _ hname _ ih => exact List.forall_mem_cons.mpr ⟨hname.fits, ih⟩
  obtain ⟨hname, hrest⟩ := h
  exact List.forall_mem_cons.mpr ⟨hname.fits, hcommas hrest⟩

omit [Blurred α] in
/-- A row has something in it. -/
theorem Row.ne_nil {item : α → Point → Point → Prop} (h : Row item items p q) : items ≠ [] := by
  cases h
  exact List.cons_ne_nil _ _

end Writing

namespace Grammar

open Rule

/-- What a statement has read that is neither a label nor empty. -/
def StatementRead (dialect : Dialect) (inner : Writing) (flow : Flow) (frame : Frame)
    (outer : List Frame) (p : Point) (v : Statement) (flow' : Flow) (q : Point) : Prop :=
  flow' = flow.within
      ((frame.jump (visibleLabels outer) v.escaping).declare v.localCount :: outer) ∧
    ProperStatement dialect inner v p q ∧
      v.WellFormed ((flow.within (frame :: outer)).situation dialect)

/-- A statement that no jump leaves changes the frame only by what it declares. -/
theorem StatementRead.straight {inner : Writing} {v : Statement} (hescaping : v.escaping = [])
    (hwritten : ProperStatement dialect inner v p q)
    (hwellFormed : v.WellFormed ((flow.within (frame :: outer)).situation dialect)) :
    StatementRead dialect inner flow frame outer p v
      (flow.within (frame.declare v.localCount :: outer)) q := by
  refine ⟨?_, hwritten, hwellFormed⟩
  rw [hescaping, Frame.jump_nil]

/-! ## Jumps -/

section

variable {inner : Writing} (start : Place)

/-- A label that was read is written, and it is the first of its name in its block. -/
theorem labelStatement_moves (inner : Writing) (start : Place) (hlabels : dialect.has .labels = true) (h : p.Faces Symbol.doubleColon) :
    (labelStatement start).Moves dialect (flow.within (frame :: outer)) p.step fun v flow' q =>
      OptionalStatement dialect inner (some v) p q ∧ ∃ name, v.label? = some name ∧
        name ∉ frame.labels ∧ flow' = flow.within (frame.label name :: outer) := by
  refine .current (.identifier fun label hlabel => .expect fun hclose => .read fun total s hs =>
    .checked fun jumps hjumps => ?_)
  have hname := hs.jumps.addLabel_eq_ok hlabels hjumps
  obtain ⟨_, hadded, hshows⟩ := hs.jumps.addLabel hlabels hname p.step.token
  obtain rfl := Except.ok.inj (hjumps.symm.trans hadded)
  refine .setJumps hshows (.quiet (quiet_placed start) fun _ _ => .give ?_)
  exact ⟨.label hlabels h hlabel hclose, label.name, rfl, hname, rfl⟩

/-- A `goto` that was read is written. -/
theorem gotoStatement_moves (h : p.Faces ReservedWord.gotoWord ∨ p.FacesContextualGoto dialect) :
    (gotoStatement start).Moves dialect (flow.within (frame :: outer)) p.step
      (StatementRead dialect inner flow frame outer p) :=
  .read fun _ _ _ => .identifier fun label hlabel => .read fun _ _ ht =>
    .setJumps (ht.jumps.addGoto label.name _) (.quiet (quiet_placed start) fun _ _ =>
      .give ⟨rfl, .gotoStatement h hlabel, trivial⟩)

/-- A `break` that was read is written, and stands in a loop. -/
theorem breakStatement_moves (h : p.Faces ReservedWord.breakWord) :
    (breakStatement start).Moves dialect (flow.within (frame :: outer)) p.step
      (StatementRead dialect inner flow frame outer p) :=
  .read fun _ _ hs => .ite (fun hloop => .quiet (quiet_placed start) fun _ _ =>
    .give (.straight rfl (.breakStatement h) (hs.jumps.isInLoop.symm.trans hloop)))
      fun _ => .complain _

end

section

variable {nested : Nested} {inner : Writing} (hn : nested.Sound dialect inner) (start : Place)

include hn

/-- A `return` that was read is written. -/
theorem returnStatement_moves (h : p.Faces ReservedWord.returnWord) :
    (returnStatement nested start).Moves dialect (flow.within (frame :: outer)) p.step
      (StatementRead dialect inner flow frame outer p) := by
  refine .current (.ite (fun hend => ?_) fun hend => ?_)
  · have hend : p.step.Faces ReservedWord.endWord := beq_iff_eq.mp hend
    exact .quiet (quiet_placed start) fun _ _ =>
      .give (.straight rfl (.returnStatement h (.nothing hend)) trivial)
  · have hend : ¬ p.step.Faces ReservedWord.endWord := fun h => by
      rw [Token.isWord, show p.step.token.value = _ from h] at hend
      exact absurd hend (by decide)
    refine (optionalList_reads hn).bind fun arguments q hread => .skip
      (.quiet (quiet_placed start) fun _ _ => ?_)
    exact .give (.straight rfl (.returnStatement h (.list hend hread.1)) hread.2)

/-! ## Conditions and loops -/

omit hn in
/-- To complete a clause is quiet, and gives that clause. -/
theorem quiet_clauseCompleted (clause : Clause) : (clauseCompleted clause).Quiet (· = clause) :=
  (quiet_complete _).bind fun _ _ => quiet_give rfl

/-- What has been read of a clause that may be missing. -/
def ClauseRead (dialect : Dialect) (inner : Writing) (flow : Flow) (outer : List Frame) :
    Option Clause → Frame × Point → Frame × Point → Prop
  | none, (frame, p), (frame', q) => ¬ p.Faces ReservedWord.elseifWord ∧ frame' = frame ∧ q = p
  | some clause, (frame, p), (frame', q) =>
    frame' = frame.jump (visibleLabels outer) clause.escaping ∧
      ElseifClause dialect inner clause p q ∧ clause.isElseif = true ∧
        clause.WellFormed ((flow.within (frame :: outer)).situation dialect)

/-- A further condition that was read is written, or none begins here. -/
theorem elseifClause_moves : (elseifClause nested).Moves dialect (flow.within (frame :: outer)) p
    fun v flow' q => ∃ frame', flow' = flow.within (frame' :: outer) ∧
      ClauseRead dialect inner flow outer v (frame, p) (frame', q) := by
  refine .quiet quiet_mark fun start _ => .ifConsume (fun helseif => ?_) fun helseif =>
    .give ⟨frame, rfl, helseif, rfl, rfl⟩
  refine (expression_reads hn).bind fun condition q hcondition => .expect fun hthen =>
    (scopedBlock_moves hn false).andThen ?_
  rintro body _ r ⟨rfl, hbody, hwellFormed⟩
  refine .quiet (quiet_placed start) fun placement _ => .quiet (quiet_clauseCompleted _) ?_
  rintro _ rfl
  exact .give ⟨_, rfl, rfl, .mk helseif hcondition.1 hthen hbody, rfl, hcondition.2, hwellFormed⟩

/-- Further conditions and what they have read. -/
theorem elseifClauses_moves : (many (elseifClause nested)).Moves dialect
    (flow.within (frame :: outer)) p fun clauses flow' q =>
      flow' = flow.within (frame.jump (visibleLabels outer) (escapingClauses clauses) :: outer) ∧
        ElseifClauses dialect inner clauses p q ∧ (∀ clause ∈ clauses, clause.isElseif = true) ∧
          wellFormedClauses ((flow.within (frame :: outer)).situation dialect) clauses := by
  have hread {clauses : List Clause} {a b : Frame × Point}
      (h : Listed (ClauseRead dialect inner flow outer) clauses a b) :
      b.1 = a.1.jump (visibleLabels outer) (escapingClauses clauses) ∧
        ElseifClauses dialect inner clauses a.2 b.2 ∧ (∀ clause ∈ clauses, clause.isElseif = true) ∧
          wellFormedClauses ((flow.within (a.1 :: outer)).situation dialect) clauses := by
    induction h with
    | none hitem =>
      obtain ⟨helseif, hframe, hpoint⟩ := hitem
      rw [hframe, hpoint]
      exact ⟨Frame.jump_nil.symm, .nil helseif, List.forall_mem_nil _, trivial⟩
    | some hitem _ ih =>
      obtain ⟨hframe, hwritten, helseif, hwellFormed⟩ := hitem
      rw [hframe, Frame.jump_jump] at ih
      obtain ⟨hframe, hrest, hothers, hclauses⟩ := ih
      exact ⟨hframe, .cons hwritten hrest, List.forall_mem_cons.mpr ⟨helseif, hothers⟩, hwellFormed,
        hclauses⟩
  have hmoves := Moves.many (fun frame => flow.within (frame :: outer)) (i := frame) (p := p)
    (Pairing.elseifClause_advances hn.advances) fun frame p => elseifClause_moves hn
  refine hmoves.mono fun clauses flow' q ⟨frame', hflow, hclauses⟩ => ?_
  obtain ⟨rfl, hclauses⟩ := hread hclauses
  exact ⟨hflow, hclauses⟩

/-- What is done otherwise was read as one block at most. -/
theorem elseClause_moves : (elseClause nested).Moves dialect (flow.within (frame :: outer)) p
    fun clauses flow' q =>
      flow' = flow.within (frame.jump (visibleLabels outer) (escapingClauses clauses) :: outer) ∧
        ElseClause dialect inner clauses p q ∧
          (clauses = [] ∨ ∃ body placement, clauses = [.elseClause body placement]) ∧
            wellFormedClauses ((flow.within (frame :: outer)).situation dialect) clauses := by
  refine .quiet quiet_mark fun start _ => .ifConsume (fun helse => ?_) fun helse => ?_
  · refine (scopedBlock_moves hn false).andThen ?_
    rintro body _ r ⟨rfl, hbody, hwellFormed⟩
    refine .quiet (quiet_placed start) fun placement _ => .quiet (quiet_clauseCompleted _) ?_
    rintro _ rfl
    refine .give ⟨?_, .some helse hbody, .inr ⟨_, _, rfl⟩, hwellFormed, trivial⟩
    rw [escapingClauses, escapingClauses, List.append_nil, Clause.escaping]
  · exact .give ⟨congrArg (flow.within <| · :: outer) Frame.jump_nil.symm, .none helse, .inl rfl, trivial⟩

/-- A conditional statement that was read is written, with its clauses in order. -/
theorem ifStatement_moves (h : p.Faces ReservedWord.ifWord) :
    (ifStatement nested start).Moves dialect (flow.within (frame :: outer)) p.step
      (StatementRead dialect inner flow frame outer p) := by
  refine (expression_reads hn).bind fun condition q hcondition => .expect fun hthen =>
    (scopedBlock_moves hn false).andThen ?_
  rintro body _ r ⟨rfl, hbody, hwellFormed⟩
  refine .quiet (quiet_placed start) fun placement _ => .quiet (quiet_clauseCompleted _) ?_
  rintro _ rfl
  refine (elseifClauses_moves hn).andThen ?_
  rintro others _ s ⟨rfl, hothers, helseif, hwellFormed'⟩
  refine (elseClause_moves hn).andThen ?_
  rintro last _ t ⟨rfl, hlast, helse, hwellFormed''⟩
  refine .expect fun hend => .quiet (quiet_placed start) fun _ _ => .give ⟨?_, .ifStatement h
    hcondition.1 hthen hbody hothers hlast hend, ⟨_, _, _, _, _, rfl, helseif, helse⟩, ?_⟩
  · rw [Frame.jump_jump, Frame.jump_jump, Statement.escaping, List.cons_append, escapingClauses,
      escapingClauses_append]
    rfl
  · rw [wellFormedClauses_iff] at hwellFormed' hwellFormed'' ⊢
    exact List.forall_mem_append.mpr ⟨List.forall_mem_cons.mpr ⟨⟨hcondition.2, hwellFormed⟩,
      hwellFormed'⟩, hwellFormed''⟩

/-- A loop with its condition in front that was read is written. -/
theorem whileStatement_moves (h : p.Faces ReservedWord.whileWord) :
    (whileStatement nested start).Moves dialect (flow.within (frame :: outer)) p.step
      (StatementRead dialect inner flow frame outer p) := by
  refine (expression_reads hn).bind fun condition q hcondition => .expect fun hdo =>
    (scopedBlock_moves hn true).andThen ?_
  rintro body _ r ⟨rfl, hbody, hwellFormed⟩
  exact .expect fun hend => .quiet (quiet_placed start) fun _ _ =>
    .give ⟨rfl, .whileStatement h hcondition.1 hdo hbody hend, hcondition.2, hwellFormed⟩

/-- A block of its own that was read is written. -/
theorem doStatement_moves (h : p.Faces ReservedWord.doWord) :
    (do
      let body ← scopedBlock nested false
      expect ReservedWord.endWord
      return Statement.doStatement body (← placed start)).Moves dialect
        (flow.within (frame :: outer)) p.step (StatementRead dialect inner flow frame outer p) := by
  refine (scopedBlock_moves hn false).andThen ?_
  rintro body _ r ⟨rfl, hbody, hwellFormed⟩
  exact .expect fun hend => .quiet (quiet_placed start) fun _ _ =>
    .give ⟨rfl, .doStatement h hbody hend, hwellFormed⟩

/-- A loop with its condition behind that was read is written; the condition stands in the body's frame. -/
theorem repeatStatement_moves (h : p.Faces ReservedWord.repeatWord) :
    (repeatStatement nested start).Moves dialect (flow.within (frame :: outer)) p.step
      (StatementRead dialect inner flow frame outer p) := by
  have hmoves : (statements nested).Moves dialect
      (flow.within ({ isLoop := true } :: frame :: outer)) p.step _ := statements_moves hn
  refine .quiet quiet_openScope fun _ _ => .openBlock (hmoves.andThen ?_)
  rintro statements _ q ⟨behind, rfl, hpasses, hstatements⟩
  refine .expect fun huntil => .goOn fun hcrossed => (expression_reads hn).bind
    fun condition r hcondition => ?_
  have hnames := fun name => @Frame.mem_pending_after name (visibleLabels (frame :: outer)) true
    (.mk statements none)
  refine .closeBlock (fun _ => hpasses.behind_eq ▸ hnames) (.quiet quiet_closeScope fun scope _ =>
    .quiet (quiet_placed start) fun _ _ => ?_)
  exact .give ⟨rfl, .repeatStatement h hstatements huntil hcondition.1,
    wellFormed_block (isLast_of_mem_dropLast hn.isLast hstatements) hpasses fun _ => hcrossed,
    hcondition.2⟩

/-- The body of a loop whose scope is open already. -/
theorem loopBody_moves : (loopBody nested).Moves dialect (flow.within (frame :: outer)) p
    fun v flow' q =>
      flow' = flow.within (frame.jump (visibleLabels outer) (Block.mk v none).escaping :: outer) ∧
        (∃ r, Statements dialect inner v p r ∧ r.Faces ReservedWord.endWord ∧ q = r.step) ∧
          ∀ scope, (Block.mk v scope).WellFormed
            ((flow.within (frame :: outer)).situation dialect).loop false :=
  .innerBlock hn fun _ r hstatements hwellFormed => .expect fun hend =>
    .give ⟨rfl, ⟨r, hstatements, hend, rfl⟩, hwellFormed⟩

/-- A loop over numbers that was read is written. -/
theorem numericFor_moves (counter : Identifier) (h : p.Faces ReservedWord.forWord)
    (hcounter : p.step.Names counter) (hassign : p.step.step.Faces Symbol.assign) :
    (numericFor nested counter start).Moves dialect (flow.within (frame :: outer)) p.step.step.step
      (StatementRead dialect inner flow frame outer p) := by
  refine (expression_reads hn).bind fun first q hfirst => .expect fun hcomma =>
    (expression_reads hn).bind fun last r hlast => (commaExpression_reads hn).bind
      fun step s hstep => .expect fun hdo => .quiet quiet_openScope fun _ _ =>
        .quiet (quiet_declare counter) fun counter' hcounter' => (loopBody_moves hn).andThen ?_
  rintro body _ _ ⟨rfl, ⟨t, hbody, hend, rfl⟩, hwellFormed⟩
  refine .quiet quiet_closeScope fun scope _ => .quiet (quiet_placed start) fun _ _ => ?_
  obtain ⟨hwritten, hstepWellFormed⟩ : LoopStep inner step r s ∧
      wellFormedExpression? (flow.surroundings dialect) step := by
    cases step with
    | none =>
      obtain ⟨hcomma, rfl⟩ := hstep
      exact ⟨.none hcomma, trivial⟩
    | some step => exact ⟨.some hstep.1 hstep.2.1, hstep.2.2⟩
  exact .give ⟨rfl, .numericFor h (hcounter.of_same hcounter') hassign hfirst.1 hcomma hlast.1
    hwritten hdo hbody hend, hfirst.2, hlast.2, hstepWellFormed, hwellFormed scope⟩

omit hn in
/-- A name behind a comma is written there, or there is no comma. -/
theorem commaIdentifier_reads : commaIdentifier.Reads dialect flow p fun v q =>
    CommaRead Name v p q :=
  .ifConsume (fun hcomma => .identifier fun _ hname => .give ⟨rfl, hcomma, .mk hname⟩)
    fun hcomma => .give ⟨rfl, hcomma, rfl⟩

/-- A loop over iterators that was read is written. -/
theorem genericFor_moves (first : Identifier) (h : p.Faces ReservedWord.forWord)
    (hfirst : p.step.Names first) :
    (genericFor nested first start).Moves dialect (flow.within (frame :: outer)) p.step.step
      (StatementRead dialect inner flow frame outer p) := by
  refine (Moves.manyReads Pairing.commaIdentifier_advances fun _ => commaIdentifier_reads).bind
    fun others q hothers => .expect fun hin => (expressionList_reads hn).bind
      fun iterators r hiterators => .expect fun hdo => .quiet quiet_openScope fun _ _ =>
        .quiet (quiet_declareAll _) fun names hnames => (loopBody_moves hn).andThen ?_
  rintro body _ _ ⟨rfl, ⟨s, hbody, hend, rfl⟩, hwellFormed⟩
  refine .quiet quiet_closeScope fun scope _ => .quiet (quiet_placed start) fun _ _ => ?_
  have hrow : Row Name names p.step q :=
    (Row.mk (.mk hfirst) hothers.commas).of_same (fun _ _ _ _ => Name.of_same) hnames
  exact .give ⟨rfl, .genericFor h hrow hin hiterators.1 hdo hbody hend, hrow.ne_nil,
    hiterators.1.ne_nil, hiterators.2, hwellFormed scope⟩

/-- Either kind of loop that was read behind `for` is written. -/
theorem forStatement_moves (h : p.Faces ReservedWord.forWord) :
    (forStatement nested start).Moves dialect (flow.within (frame :: outer)) p.step
      (StatementRead dialect inner flow frame outer p) :=
  .identifier fun first hfirst => .ifConsume
    (fun hassign => numericFor_moves hn start first h hfirst hassign)
      fun _ => genericFor_moves hn start first h hfirst

/-! ## Declarations and assignments -/

omit hn in
/-- Locals that are declared one after another are declared together. -/
theorem Frame.declare_declare (count count' : Nat) :
    (frame.declare count).declare count' = frame.declare (count + count') := by
  rw [Frame.declare, Frame.declare, Frame.declare, Nat.add_assoc]

omit hn in
/-- A declared name that was recorded is written, and the frame has one local more. -/
theorem recordedDeclarator_moves : recordedDeclarator.Moves dialect (flow.within (frame :: outer)) p
    fun v flow' q => flow' = flow.within (frame.declare 1 :: outer) ∧ Declared dialect v p q :=
  declarator_reads.bind fun _ _ hname => .recordLocal (.give ⟨rfl, hname⟩)

/-- What has been read of a name behind a comma that may be missing, which is recorded. -/
def CommaDeclaratorRead (dialect : Dialect) (v : Option Declarator) (a b : Frame × Point) : Prop :=
  b.1 = a.1.declare v.toList.length ∧ CommaRead (Declared dialect) v a.2 b.2

omit hn in
/-- A declared name behind a comma is written there, or there is no comma. -/
theorem commaDeclarator_moves : commaDeclarator.Moves dialect (flow.within (frame :: outer)) p
    fun v flow' q => ∃ frame', flow' = flow.within (frame' :: outer) ∧
      CommaDeclaratorRead dialect v (frame, p) (frame', q) := by
  refine .ifConsume (fun hcomma => recordedDeclarator_moves.andThen ?_) fun hcomma =>
    .give ⟨frame, rfl, rfl, hcomma, rfl⟩
  rintro name _ q ⟨rfl, hname⟩
  exact .give ⟨_, rfl, rfl, hcomma, hname⟩

omit hn in
/-- Names behind commas, which are recorded. -/
theorem commaDeclarators_moves : (many commaDeclarator).Moves dialect (flow.within (frame :: outer)) p
    fun v flow' q => flow' = flow.within (frame.declare v.length :: outer) ∧
      Commas (Declared dialect) v p q := by
  have hread {names : List Declarator} {a b : Frame × Point}
      (h : Listed (CommaDeclaratorRead dialect) names a b) : b.1 = a.1.declare names.length := by
    induction h with
    | none hitem => exact hitem.1
    | some hitem _ ih =>
      rw [ih, hitem.1, Frame.declare_declare, Nat.add_comm]
      rfl
  have hmoves : (many commaDeclarator).Moves dialect (flow.within (frame :: outer)) p
      fun v flow' q => ∃ frame', flow' = flow.within (frame' :: outer) ∧
        Listed (CommaDeclaratorRead dialect) v (frame, p) (frame', q) :=
    Moves.many (fun frame => flow.within (frame :: outer)) Pairing.commaDeclarator_advances
      fun _ _ => commaDeclarator_moves
  refine hmoves.mono fun names flow' q ⟨frame', hflow, hnames⟩ => ?_
  obtain rfl := hread hnames
  exact ⟨hflow, (hnames.map Prod.snd fun _ _ _ h => h.2).commas⟩

/-- A local function that was read is written. -/
theorem localFunction_moves (h : p.Faces ReservedWord.localWord)
    (hfunction : p.step.Faces ReservedWord.functionWord) :
    (localFunction nested start).Moves dialect (flow.within (frame :: outer)) p.step.step
      (StatementRead dialect inner flow frame outer p) := by
  refine .identifier fun name hname => .recordLocal (.quiet (quiet_declare name) fun name' hname' =>
    (functionBody_reads hn _ true false start).bind fun function q hread => ?_)
  obtain ⟨⟨parameters, body, placement, rfl⟩, hwritten, hwellFormed⟩ := hread
  exact .give (.straight rfl (.localFunction h hfunction (hname.of_same hname') hwritten)
    ⟨⟨_, rfl⟩, hwellFormed⟩)

/-- Local variables that were read are written. -/
theorem localVariables_moves (h : p.Faces ReservedWord.localWord) :
    (localVariables nested start).Moves dialect (flow.within (frame :: outer)) p.step
      (StatementRead dialect inner flow frame outer p) := by
  refine recordedDeclarator_moves.andThen ?_
  rintro first _ q ⟨rfl, hfirst⟩
  refine commaDeclarators_moves.andThen ?_
  rintro others _ r ⟨rfl, hothers⟩
  rw [Frame.declare_declare]
  have hfinish (values : List Expression) (s : Point) (hwritten : InitialValues inner values r s)
      (hwellFormed : wellFormedExpressions (flow.surroundings dialect) values) :
      (declareVariables (first :: others) >>= fun names => placed start >>= fun placement =>
        pure (Statement.localStatement names values placement)).Moves dialect
          (flow.within (frame.declare (1 + others.length) :: outer)) s
          (StatementRead dialect inner flow frame outer p) := by
    refine .quiet (quiet_declareVariables _) fun names hnames => .quiet (quiet_placed start) fun _ _ => ?_
    have hrow : Row (Declared dialect) names p.step r :=
      (Row.mk hfirst hothers).of_same (fun _ _ _ _ => Declared.of_same) hnames
    have hlength : 1 + others.length = names.length := by
      rw [← hnames.length_eq, List.length_cons, Nat.add_comm]
    rw [hlength]
    exact .give (.straight rfl (.localVariables h hrow hwritten) ⟨hrow.ne_nil, hrow.fits, hwellFormed⟩)
  refine .ifConsume (fun hassign => ?_) fun hassign => hfinish [] r (.none hassign) trivial
  exact (expressionList_reads hn).bind fun values s hread =>
    hfinish values s (.some hassign hread.1) hread.2

/-- What is local was read as a function or as variables. -/
theorem localStatement_moves (h : p.Faces ReservedWord.localWord) :
    (localStatement nested start).Moves dialect (flow.within (frame :: outer)) p.step
      (StatementRead dialect inner flow frame outer p) :=
  .ifConsume (fun hfunction => localFunction_moves hn start h hfunction)
    fun _ => localVariables_moves hn start h

/-- A function statement that was read is written. -/
theorem functionStatement_moves (h : p.Faces ReservedWord.functionWord) :
    (do
      let (name, isMethod) ← functionName
      return Statement.functionStatement
        (← functionBody nested (some name) false isMethod start)).Moves dialect
          (flow.within (frame :: outer)) p.step (StatementRead dialect inner flow frame outer p) := by
  refine functionName_reads.bind fun name q hname =>
    (functionBody_reads hn _ false name.2 start).bind fun function r hread => ?_
  obtain ⟨⟨parameters, body, placement, rfl⟩, hwritten, hwellFormed⟩ := hread
  exact .give (.straight rfl (.functionStatement h hname.1 hwritten) ⟨hname.2, hwellFormed⟩)

/-- What has been read that an assignment or a call may begin with. -/
def TargetRead (dialect : Dialect) (inner : Writing) (flow : Flow) (p : Point) (v : Expression × Bool)
    (q : Point) : Prop :=
  Suffixed dialect inner v.2 v.1 p q ∧ v.1.WellFormed (flow.surroundings dialect) false

/-- A target that was read is written, and is known to be fit or not. -/
theorem target_reads : (target nested).Reads dialect flow p fun v q =>
    TargetRead dialect inner flow p v q := by
  refine .quiet quiet_mark fun start _ => .current (.ite (fun _ => ?_) fun _ =>
    .ifConsume (fun hleft => ?_) fun _ => .refuse)
  · refine .resolved fun name hname => ?_
    have hbase : (Expression.identifier name).WellFormed (flow.surroundings dialect) false := trivial
    refine (suffixes_reads hn start hbase).bind fun v q hread => ?_
    exact .give ⟨rfl, .name hname hread.1 hread.2.1, hread.2.2⟩
  · refine (parenthesised_reads hn hleft).bind fun base q hbase => .current
      ((suffixes_reads hn start hbase.2).bind fun v r hread => ?_)
    exact .give ⟨rfl, .enclosed hbase.1 hread.1 hread.2.1, hread.2.2⟩

/-- What a turn has read that takes a target and a comma behind it. -/
def TargetTurnRead (item : Expression → Point → Point → Prop) : Turn Expression → Point → Point → Prop
  | .stop, _, _ => False
  | .last target, p, q => item target p q ∧ ¬ q.Faces Symbol.comma
  | .more target, p, r => ∃ q, item target p q ∧ q.Faces Symbol.comma ∧ r = q.step

omit hn in
/-- Targets that were read turn by turn are written in a row. -/
theorem Turned.row {item : Expression → Point → Point → Prop} {targets : List Expression}
    (h : Turned (TargetTurnRead item) targets p q) : Row item targets p q := by
  induction h with
  | stop hturn => exact hturn.elim
  | last hturn => exact .mk hturn.1 (.nil hturn.2)
  | more hturn _ ih =>
    obtain ⟨q, hitem, hcomma, rfl⟩ := hturn
    obtain ⟨hfirst, hrest⟩ := ih
    exact .mk hitem (.cons hcomma hfirst hrest)

/-- What holds of a target besides how it is written. -/
def TargetFits (dialect : Dialect) (flow : Flow) (target : Expression) : Prop :=
  target.isAssignable = true ∧ target.WellFormed (flow.surroundings dialect) false

omit hn in
/-- What can be assigned to is more than an expression in parentheses. -/
theorem TargetRead.target {v : Expression × Bool} (h : TargetRead dialect inner flow p v q)
    (hassignable : (v.2 || !v.1.isAssignable) = false) :
    Target dialect inner v.1 p q ∧ TargetFits dialect flow v.1 := by
  obtain ⟨target, bare⟩ := v
  obtain ⟨rfl, hassignable⟩ := Bool.or_eq_false_iff.mp hassignable
  rw [Bool.not_eq_false'] at hassignable
  exact ⟨.mk h.1 hassignable, hassignable, h.2⟩

/-- A target behind a comma is written there, and fit to be assigned. -/
theorem targetTurn_reads : (targetTurn nested).Reads dialect flow p fun v q =>
    TargetTurnRead (fun target p q => Target dialect inner target p q ∧ TargetFits dialect flow target)
      v p q := by
  refine (target_reads hn).bind fun v q hread => .ite (fun _ => .refuse) fun hassignable =>
    .ifConsume (fun hcomma => ?_) fun hcomma => ?_
  · exact .give ⟨rfl, q, hread.target hassignable, hcomma, rfl⟩
  · exact .give ⟨rfl, hread.target hassignable, hcomma⟩

/-- An assignment that was read is written. -/
theorem assignedValues_moves {targets : List Expression} (hgoto : ¬ p.FacesContextualGoto dialect)
    (htargets : Row (fun target p q => Target dialect inner target p q ∧
      TargetFits dialect flow target) targets p q) :
    (assignedValues nested targets start).Moves dialect (flow.within (frame :: outer)) q
      (StatementRead dialect inner flow frame outer p) := by
  obtain ⟨hrow, hfit⟩ := htargets.both
  refine .expect fun hassign => (expressionList_reads hn).bind fun values r hvalues =>
    .quiet (quiet_placed start) fun _ _ => ?_
  exact .give (.straight rfl (.assignment hgoto hrow hassign hvalues.1) ⟨hrow.ne_nil,
    hvalues.1.ne_nil, fun target h => (hfit target h).1,
    wellFormedExpressions_iff.mpr fun target h => (hfit target h).2, hvalues.2⟩)

/-- An assignment or a call that was read is written as one of the two. -/
theorem assignmentOrCall_moves (hgoto : ¬ p.FacesContextualGoto dialect) :
    (assignmentOrCall nested start).Moves dialect (flow.within (frame :: outer)) p
      (StatementRead dialect inner flow frame outer p) := by
  refine (target_reads hn).bind fun v q hread => .at? (.ite (fun hcall => ?_) fun _ =>
    .ite (fun _ => .refuse) fun hassignable => .ite (fun hcomma => ?_) fun hcomma => ?_)
  · obtain ⟨call, bare⟩ := v
    simp only [Bool.and_eq_true, Bool.not_eq_true', decide_eq_false_iff_not] at hcall
    obtain ⟨⟨rfl, hcall⟩, hcomma⟩ := hcall
    exact .quiet (quiet_placed start) fun _ _ =>
      .give (.straight rfl (.callStatement hgoto hread.1 hcall hcomma) ⟨hcall, hread.2⟩)
  · have hcomma : q.Faces Symbol.comma := of_decide_eq_true hcomma
    refine .advance hcomma.isEnd_eq ((Moves.repeatedReads (Pairing.targetTurn_advances hn.advances)
      fun _ => targetTurn_reads hn).bind fun others r hothers => ?_)
    obtain ⟨hfirst, hrest⟩ := hothers.row
    exact assignedValues_moves hn start hgoto (.mk (hread.target hassignable) (.cons hcomma hfirst hrest))
  · exact assignedValues_moves hn start hgoto
      (.mk (hread.target hassignable) (.nil (of_decide_eq_false hcomma)))

/-! ## Structures -/

omit hn in
/-- What has been read of a field that may be missing. -/
def EntryRead : Option StructureEntry → Point → Point → Prop
  | none, p, q => p.Faces ReservedWord.endWord ∧ q = p
  | some entry, p, r => ∃ q, Entry entry p q ∧ r = behindEntry q

omit hn in
/-- An entry of a structure is written, or none begins here. -/
theorem structureEntry_reads :
    structureEntry.Reads dialect flow p fun v q => EntryRead v p q := by
  refine .ifAt (fun hend => .give ⟨rfl, hend, rfl⟩) fun _ => .quiet quiet_mark fun start _ =>
    .identifier fun key hkey => .expect fun hcolon => .identifier fun type htype =>
      .quiet (quiet_placed start) fun placement _ => .quiet (quiet_complete _) fun _ _ => ?_
  have hentry : Entry ⟨key, type, placement⟩ p p.step.step.step := .mk hkey hcolon htype
  refine (Moves.consume _).bind fun found q hfound => ?_
  cases found with
  | true =>
    obtain ⟨hcomma, rfl⟩ := hfound
    exact .give ⟨rfl, _, hentry, (if_pos hcomma).symm⟩
  | false =>
    obtain ⟨hcomma, rfl⟩ := hfound
    exact .skip (.give ⟨rfl, _, hentry, (if_neg hcomma).symm⟩)

omit hn in
/-- Entries that were read one by one are written in a row. -/
theorem Listed.entries {fields : List StructureEntry} (h : Listed EntryRead fields p q) :
    Entries fields p q := by
  induction h with
  | none hitem =>
    obtain ⟨hend, rfl⟩ := hitem
    exact .nil hend
  | some hitem _ ih =>
    obtain ⟨q, hentry, rfl⟩ := hitem
    exact .cons hentry ih

omit hn in
/-- The declaration of a structure that was read is written. -/
theorem structureDeclaration_moves (h : p.Faces ReservedWord.hstructureWord) :
    (structureDeclaration start).Moves dialect (flow.within (frame :: outer)) p.step
      (StatementRead dialect inner flow frame outer p) :=
  .identifier fun _ hname => (Moves.manyReads Pairing.structureEntry_advances
    fun _ => structureEntry_reads).bind fun _ _ hfields => .expect fun hend =>
      .quiet (quiet_placed start) fun _ _ =>
        .give (.straight rfl (.structureDeclaration h hname hfields.entries hend) trivial)

/-! ## Statements -/

/-- What was read behind a keyword is written behind it. -/
theorem keywordStatement_moves {word : ReservedWord} {rule : Rule Statement}
    (hrule : keywordStatement nested start word = some rule) (h : p.Faces word) :
    rule.Moves dialect (flow.within (frame :: outer)) p.step
      (StatementRead dialect inner flow frame outer p) := by
  cases word with
  | localWord => exact Option.some.inj hrule ▸ localStatement_moves hn start h
  | ifWord => exact Option.some.inj hrule ▸ ifStatement_moves hn start h
  | returnWord => exact Option.some.inj hrule ▸ returnStatement_moves hn start h
  | functionWord => exact Option.some.inj hrule ▸ functionStatement_moves hn start h
  | whileWord => exact Option.some.inj hrule ▸ whileStatement_moves hn start h
  | forWord => exact Option.some.inj hrule ▸ forStatement_moves hn start h
  | repeatWord => exact Option.some.inj hrule ▸ repeatStatement_moves hn start h
  | breakWord => exact Option.some.inj hrule ▸ breakStatement_moves start h
  | doWord => exact Option.some.inj hrule ▸ doStatement_moves hn start h
  | gotoWord => exact Option.some.inj hrule ▸ gotoStatement_moves start (.inl h)
  | hstructureWord => exact Option.some.inj hrule ▸ structureDeclaration_moves start h
  | _ => cases hrule

omit hn in
/-- A `goto` that is no keyword is found exactly where one stands. -/
theorem atContextualGoto_reads : atContextualGoto.Reads dialect flow p fun v q =>
    (v = true ↔ p.FacesContextualGoto dialect) ∧ q = p := by
  refine .read fun total s hs => .has (.give ⟨rfl, ?_, rfl⟩)
  rw [hs.token, hs.lookahead, Bool.and_eq_true, Bool.and_eq_true, beq_iff_eq, beq_iff_eq, and_assoc]
  rfl

omit hn in
/-- A keyword is no name. -/
theorem not_facesContextualGoto {word : ReservedWord} (h : p.Faces word) :
    ¬ p.FacesContextualGoto dialect := by
  rintro ⟨-, hname, -⟩
  rw [Token.name?, show p.token.value = _ from h] at hname
  cases hname

/-- A statement that is not empty was read as it is written. -/
theorem properStatement_moves :
    (properStatement nested start).Moves dialect (flow.within (frame :: outer)) p
      (StatementRead dialect inner flow frame outer p) := by
  refine .current ?_
  split
  · next word hword =>
    have hfaces : p.Faces word := hword
    split
    · next rule hrule => exact .advance hfaces.isEnd_eq (keywordStatement_moves hn start hrule hfaces)
    · exact assignmentOrCall_moves hn start (not_facesContextualGoto hfaces)
  · refine atContextualGoto_reads.bind fun found q hfound => ?_
    obtain ⟨hfound, rfl⟩ := hfound
    refine .ite (fun hgoto => ?_) fun hgoto => ?_
    · have hgoto := hfound.mp hgoto
      have hname : q.Names { name := "goto", placement := .none } := hgoto.2.1
      exact .advance hname.isEnd_eq (gotoStatement_moves start (.inr hgoto))
    · exact assignmentOrCall_moves hn start fun h => by
        rw [hfound.mpr h] at hgoto
        cases hgoto

omit hn in
/-- Only a label has a name to jump to. -/
theorem label?_eq_none {v : Statement} (h : ProperStatement dialect inner v p q) :
    v.label? = none := by
  cases h <;> rfl

omit start in
/-- A statement that was read is written, or it is empty and left out. -/
theorem statement_moves : (statement nested).Moves dialect (flow.within (frame :: outer)) p
    fun v flow' q => ∃ behind, flow' = flow.within (behind :: outer) ∧
      OptionalStatement dialect inner v p q ∧ flow.Passes dialect outer frame v.toList behind := by
  refine .quiet quiet_mark fun start _ => .has (.at? (.ite (fun hlabel => ?_) fun _ =>
    .has (.at? (.ite (fun hempty => ?_) fun _ => .goOn fun hcrossed => ?_))))
  · obtain ⟨hlabels, hcolons⟩ := Bool.and_eq_true_iff.mp hlabel
    have hcolons : p.Faces Symbol.doubleColon := of_decide_eq_true hcolons
    refine .advance hcolons.isEnd_eq ((labelStatement_moves inner start hlabels hcolons).andThen ?_)
    rintro v _ q ⟨hwritten, name, hname, hnew, rfl⟩
    refine .give ⟨_, rfl, hwritten, ?_⟩
    have hpasses : flow.Passes dialect outer frame [v] (frame.behind (visibleLabels outer) v) := by
      refine .singleton (fun _ => ?_) ?_
      · rw [Frame.Admits, hname]
        exact hnew
      · obtain ⟨label, placement, rfl, -⟩ := Statement.eq_label hname
        exact hlabels
    rwa [Frame.behind, hname] at hpasses
  · obtain ⟨hempty, hsemicolon⟩ := Bool.and_eq_true_iff.mp hempty
    have hsemicolon : p.Faces Symbol.semicolon := of_decide_eq_true hsemicolon
    exact .advance hsemicolon.isEnd_eq (.give ⟨frame, rfl, .empty hempty hsemicolon, .nil⟩)
  · refine (properStatement_moves hn start).andThen ?_
    rintro v _ q ⟨rfl, hwritten, hwellFormed⟩
    have hlabel := label?_eq_none hwritten
    refine .give ⟨_, rfl, .proper hwritten, ?_⟩
    have hpasses : flow.Passes dialect outer frame [v] (frame.behind (visibleLabels outer) v) := by
      refine .singleton (fun hlabels => ?_) hwellFormed
      rw [Frame.Admits, hlabel]
      exact hcrossed hlabels
    rwa [Frame.behind, hlabel] at hpasses

end

/-- A statement that is the last of its block begins with a keyword that nothing may follow. -/
theorem faces_of_isLast {inner : Writing} {v : Statement}
    (h : OptionalStatement dialect inner (some v) p q) (hlast : v.isLast dialect = true) :
    p.Faces ReservedWord.returnWord ∨
      (p.Faces ReservedWord.breakWord ∧ dialect.has .relaxedBreak = false) := by
  cases h with
  | label => cases hlast
  | proper h =>
    cases h with
    | returnStatement h => exact .inl h
    | breakStatement h => exact .inr ⟨h, (Bool.not_eq_true' _).mp hlast⟩
    | _ => cases hlast

end Grammar

end LuaSyntax
