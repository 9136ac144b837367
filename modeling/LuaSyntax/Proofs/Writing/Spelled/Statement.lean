import LuaSyntax.Proofs.Writing.Spelled.Expression
import LuaSyntax.Proofs.Grammar.Complete.Chunk
import LuaSyntax.Proofs.Grammar.Twins.Chunk

/-!
# Statements and chunks, spelled

Where the words of a statement stand, and a semicolon behind them, the statement is written. A `return`
takes that semicolon; behind every other statement it is left to the block.

Where `goto` is a name like any other, an assignment or a call may begin with it. It is not taken for a
jump, since what stands behind such a name is no name.

Every well-formed tree is read back from its own words. Level by level, what needs fewer levels than there
are is written where its words stand; the words of a chunk therefore write the chunk, and the grammar gives
it.
-/

namespace LuaSyntax

variable {dialect : Dialect} {inner : Writing} {line depth : Nat} {p q m : Point}

namespace Writing

/-! ## What goes on behind a name -/

/-- No `goto` stands where something with suffixes does and no name stands behind that. -/
theorem not_facesContextualGoto_of_suffixed {bare : Bool} {v : Expression}
    (h : Suffixed dialect inner bare v p q) (hq : q.token.kind ≠ .identifier) :
    ¬ p.FacesContextualGoto dialect := by
  rintro ⟨-, hgoto, hname⟩
  rcases h.ahead (Token.kind_of_name hgoto) with rfl | hstarts
  · exact hq hname
  · obtain ⟨name, hvalue⟩ := Token.value_of_kind hname
    rw [Point.token_step, Grammar.startsSuffix, hvalue] at hstarts
    cases hstarts

/-- A keyword or a symbol is no name. -/
theorem kind_of_faces {terminal : Grammar.Terminal} (h : p.Faces terminal) :
    p.token.kind ≠ .identifier := by
  rw [Token.kind, show p.token.value = _ from h]
  cases terminal <;> exact TokenKind.noConfusion

/-- What can be assigned to is a name or ends in a suffix. -/
theorem takesSuffix_of_isAssignable {v : Expression} (h : v.isAssignable = true) :
    v.takesSuffix = true := by
  cases v <;> first | rfl | cases h

/-- A suffix may stand behind every call. -/
theorem takesSuffix_of_isCall {v : Expression} (h : v.isCall = true) : v.takesSuffix = true := by
  cases v <;> first | rfl | cases h

/-! ## Names of functions -/

/-- A path that is spelled is written. -/
theorem path_of_spells {name : Expression} {p q : Point} (hpath : name.IsPath)
    (h : Spells line (name.words dialect) p q) : NamePath name p q := by
  match name with
  | .identifier _ =>
    obtain ⟨hname, hend⟩ := h.name
    obtain rfl : p.step = q := hend
    exact .name hname
  | .member base .dot _ _ =>
    have hbase : base.IsPath := hpath
    have htakes : base.takesSuffix = true := by
      cases base <;> first | rfl | exact hbase.elim
    rw [Expression.words, behindSuffix, if_pos htakes] at h
    obtain ⟨m, hwords, hrest⟩ := spells_append.mp h
    obtain ⟨hdot, hrest⟩ := hrest.terminal
    obtain ⟨hname, hend⟩ := hrest.name
    obtain rfl : m.step.step = q := hend
    exact .member (path_of_spells hbase hwords) hdot hname

/-- The name of a function that is spelled is written. -/
theorem functionName_of_spells {name : Expression} (hname : name.IsFunctionName)
    (h : Spells line (name.words dialect) p q) : FunctionName name p q := by
  match name with
  | .identifier _ => exact .function (path_of_spells hname h)
  | .member _ .dot _ _ => exact .function (path_of_spells hname h)
  | .member base .colon _ _ =>
    have hbase : base.IsPath := hname
    have htakes : base.takesSuffix = true := by
      cases base <;> first | rfl | exact hbase.elim
    rw [Expression.words, behindSuffix, if_pos htakes] at h
    obtain ⟨m, hwords, hrest⟩ := spells_append.mp h
    obtain ⟨hcolon, hrest⟩ := hrest.terminal
    obtain ⟨hmethod, hend⟩ := hrest.name
    obtain rfl : m.step.step = q := hend
    exact .method (path_of_spells hbase hwords) hcolon hmethod

/-! ## Structure declarations -/

/-- Entries of a structure that are spelled are written. -/
theorem entries_of_spells {fields : List StructureEntry}
    (h : Spells line (fields.flatMap StructureEntry.words) p q) (hend : q.Faces ReservedWord.endWord) :
    Entries fields p q := by
  induction fields generalizing p with
  | nil =>
    obtain rfl : p = q := h
    exact .nil hend
  | cons entry rest ih =>
    obtain ⟨key, type, placement⟩ := entry
    rw [List.flatMap_cons] at h
    obtain ⟨m, hentry, hrest⟩ := spells_append.mp h
    obtain ⟨hkey, hentry⟩ := hentry.name
    obtain ⟨hcolon, hentry⟩ := hentry.terminal
    obtain ⟨htype, hentry⟩ := hentry.name
    obtain ⟨hsemicolon, hstop⟩ := hentry.terminal
    obtain rfl : p.step.step.step.step = m := hstop
    refine .cons (.mk hkey hcolon htype) ?_
    rw [behindEntry, if_neg (hsemicolon.not_faces (by decide)), Point.skip_of_faces hsemicolon]
    exact ih hrest

section

variable (hs : Spelled dialect line depth) {situation : Situation}
  (hdialect : situation.dialect = dialect)

include hs hdialect

/-! ## Clauses -/

/-- A condition, the keyword behind it and a block. -/
theorem guarded_of_spells {condition : Expression} {body : Block} {word : ReservedWord}
    {inside : Situation} (hinside : inside.dialect = dialect)
    (hnesting : max (condition.nesting + 1) body.nesting ≤ depth)
    (hcondition : condition.WellFormed situation.toSurroundings false)
    (hbody : body.WellFormed inside false) (hword : word = .thenWord ∨ word = .doWord)
    (h : Spells line (condition.words dialect ++ .terminal word :: body.words dialect) p q)
    (hend : Grammar.endsBlock q.token = true) :
    ∃ m, (ofDepth dialect depth).expression 0 condition p m ∧ m.Faces word ∧
      Statements dialect (ofDepth dialect depth) body.statements m.step q := by
  obtain ⟨m, hwords, hfaces, hstatements⟩ := h.between
  have hcloses : Closes m := by
    refine closes_of_faces hfaces ?_
    rcases hword with rfl | rfl <;> decide
  exact ⟨m, hs.expression hdialect (by omega) hcondition _ _ hwords hcloses, hfaces,
    block_of_spells hs hinside (by omega) hbody hstatements hend⟩

/-- Any number of `elseif` clauses that is spelled is written. -/
theorem elseifClauses_of_spells {others : List Clause}
    (hothers : ∀ clause ∈ others, clause.isElseif = true)
    (hnesting : clausesNesting others ≤ depth) (hwellFormed : wellFormedClauses situation others)
    (h : Spells line (clausesWords dialect others) p q) (hend : Grammar.endsBlock q.token = true)
    (hstop : ¬ q.Faces ReservedWord.elseifWord) :
    ElseifClauses dialect (ofDepth dialect depth) others p q ∧ Grammar.endsBlock p.token = true := by
  induction others generalizing p with
  | nil =>
    obtain rfl : p = q := h
    exact ⟨.nil hstop, hend⟩
  | cons clause rest ih =>
    obtain ⟨hclause, hrest⟩ := List.forall_mem_cons.mp hothers
    have hmax : max clause.nesting (clausesNesting rest) ≤ depth := hnesting
    obtain ⟨m, hwords, hmore⟩ := spells_append.mp h
    obtain ⟨hmore, hends⟩ := ih hrest (by omega) hwellFormed.2 hmore
    cases clause with
    | elseifClause condition body placement =>
      have hguarded : max (condition.nesting + 1) body.nesting ≤ depth :=
        Nat.le_trans (Nat.le_max_left _ _) hmax
      obtain ⟨hfaces, hwords⟩ := hwords.terminal
      obtain ⟨r, hcondition, hthen, hbody⟩ := guarded_of_spells hs hdialect hdialect hguarded
        hwellFormed.1.1 hwellFormed.1.2 (.inl rfl) hwords hends
      refine ⟨.cons (.mk hfaces hcondition hthen hbody) hmore, ?_⟩
      rw [Grammar.endsBlock, show p.token.value = _ from hfaces]
      rfl
    | _ => cases hclause

/-- An `else` clause that is spelled is written. -/
theorem elseClause_of_spells {last : List Clause}
    (hlast : last = [] ∨ ∃ body placement, last = [.elseClause body placement])
    (hnesting : clausesNesting last ≤ depth) (hwellFormed : wellFormedClauses situation last)
    (h : Spells line (clausesWords dialect last) p q) (hend : q.Faces ReservedWord.endWord) :
    ElseClause dialect (ofDepth dialect depth) last p q ∧ Grammar.endsBlock p.token = true ∧
      ¬ p.Faces ReservedWord.elseifWord := by
  have hends : Grammar.endsBlock q.token = true := by
    rw [Grammar.endsBlock, show q.token.value = _ from hend]
    rfl
  rcases hlast with rfl | ⟨body, placement, rfl⟩
  · obtain rfl : p = q := h
    exact ⟨.none (hend.not_faces (by decide)), hends, hend.not_faces (by decide)⟩
  · have hbody : max body.nesting 0 ≤ depth := hnesting
    rw [clausesWords, clausesWords, List.append_nil] at h
    obtain ⟨helse, hwords⟩ := h.terminal
    refine ⟨.some helse (block_of_spells hs hdialect (by omega) hwellFormed.1 hwords hends), ?_,
      helse.not_faces (by decide)⟩
    rw [Grammar.endsBlock, show p.token.value = _ from helse]
    rfl

/-- The clauses of a conditional statement up to its end. -/
theorem ifStatement_of_spells {clauses : List Clause} {placement : Placement}
    (hfit : ClausesFit clauses) (hnesting : clausesNesting clauses ≤ depth)
    (hwellFormed : wellFormedClauses situation clauses)
    (h : Spells line (clausesWords dialect clauses ++ [.terminal ReservedWord.endWord]) p q) :
    ProperStatement dialect (ofDepth dialect depth) (.ifStatement clauses placement) p q := by
  obtain ⟨condition, body, placement', others, last, rfl, hothers, hlast⟩ := hfit
  have hall : ∀ clause ∈ others ++ last, clause.WellFormed situation := fun clause hmem =>
    wellFormedClauses_iff.mp hwellFormed.2 clause hmem
  have hmax : max (max (condition.nesting + 1) body.nesting) (clausesNesting (others ++ last)) ≤
    depth := hnesting
  rw [clausesNesting_append] at hmax
  obtain ⟨t, hwords, hend, rfl⟩ := h.concat
  rw [List.cons_append, clausesWords, clausesWords_append] at hwords
  obtain ⟨r, hfirst, hwords⟩ := spells_append.mp hwords
  obtain ⟨u, hmiddle, hwords⟩ := spells_append.mp hwords
  obtain ⟨hlast, hends, hstop⟩ := elseClause_of_spells hs hdialect hlast (by omega)
    (wellFormedClauses_iff.mpr fun clause hmem => hall clause (List.mem_append_right _ hmem))
    hwords hend
  obtain ⟨hothers, hends⟩ := elseifClauses_of_spells hs hdialect hothers (by omega)
    (wellFormedClauses_iff.mpr fun clause hmem => hall clause (List.mem_append_left _ hmem))
    hmiddle hends hstop
  obtain ⟨hif, hfirst⟩ := hfirst.terminal
  obtain ⟨m, hcondition, hthen, hbody⟩ := guarded_of_spells hs hdialect hdialect (by omega)
    hwellFormed.1.1 hwellFormed.1.2 (.inl rfl) hfirst hends
  exact .ifStatement hif hcondition hthen hbody hothers hlast hend

/-! ## Loops -/

/-- A condition, the keyword behind it and a block that ends with its keyword. -/
theorem loop_of_spells {condition : Expression} {body : Block} {inside : Situation}
    (hinside : inside.dialect = dialect)
    (hnesting : max (condition.nesting + 1) body.nesting ≤ depth)
    (hcondition : condition.WellFormed situation.toSurroundings false)
    (hbody : body.WellFormed inside false)
    (h : Spells line (condition.words dialect ++ .terminal ReservedWord.doWord ::
      (body.words dialect ++ [.terminal ReservedWord.endWord])) p q) :
    ∃ m r, (ofDepth dialect depth).expression 0 condition p m ∧ m.Faces ReservedWord.doWord ∧
      Statements dialect (ofDepth dialect depth) body.statements m.step r ∧
        r.Faces ReservedWord.endWord ∧ r.step = q := by
  obtain ⟨m, hwords, hdo, hrest⟩ := h.between
  obtain ⟨r, hstatements, hend, hstop⟩ :=
    block_of_spells_between hs hinside (by omega) hbody hrest (by decide)
  exact ⟨m, r, hs.expression hdialect (by omega) hcondition _ _ hwords
    (closes_of_faces hdo (by decide)), hdo, hstatements, hend, hstop⟩

/-- The step of a loop that counts, up to the keyword behind it. -/
theorem loopStep_of_spells {step : Option Expression} (hnesting : expressionNesting? step ≤ depth)
    (hwellFormed : wellFormedExpression? situation.toSurroundings step)
    (h : Spells line (if step.isSome then .terminal Symbol.comma :: expressionWords? dialect step else [])
      p q) (hdo : q.Faces ReservedWord.doWord) :
    LoopStep (ofDepth dialect depth) step p q ∧ Closes p := by
  cases step with
  | none =>
    obtain rfl : p = q := h
    exact ⟨.none (hdo.not_faces nofun), closes_of_faces hdo (by decide)⟩
  | some step =>
    obtain ⟨hcomma, hwords⟩ := h.terminal
    exact ⟨.some hcomma (hs.expression hdialect hnesting hwellFormed _ _ hwords
      (closes_of_faces hdo (by decide))), closes_of_faces hcomma (by decide)⟩

/-! ## Targets -/

/-- The targets of an assignment, each as it is spelled. -/
theorem targets_of_spells {targets : List Expression} (hnesting : targetsNesting targets ≤ depth)
    (hassignable : ∀ target ∈ targets, target.isAssignable = true)
    (hwellFormed : wellFormedExpressions situation.toSurroundings targets) :
    ∀ v ∈ targets, WrittenAs line (fun q => Grammar.startsSuffix q.token = false)
      (Expression.words dialect) (Target dialect (ofDepth dialect depth)) v := by
  intro v hv p q h hend
  have hle : v.nesting ≤ targetsNesting targets :=
    @le_of_mem_max _ _ targetsNesting (fun _ _ => rfl) _ _ hv
  exact .mk (suffixed_of_spells hs hdialect (takesSuffix_of_isAssignable (hassignable v hv))
    (by omega) (wellFormedExpressions_iff.mp hwellFormed v hv) h hend) (hassignable v hv)

/-! ## Statements -/

/-- An assignment that is spelled is written. -/
theorem assignment_of_spells {targets values : List Expression} {placement : Placement}
    (hnesting : max (targetsNesting targets) (expressionsNesting values) ≤ depth)
    (hwellFormed : (Statement.assignment targets values placement).WellFormed situation)
    (h : Spells line ((Statement.assignment targets values placement).words dialect) p q)
    (hcloses : Closes q) (hstop : ¬ q.Faces Symbol.comma) :
    ProperStatement dialect (ofDepth dialect depth) (.assignment targets values placement) p q := by
  obtain ⟨htargets, hvalues, hassignable, hleft, hright⟩ := hwellFormed
  have hends {p : Point} {symbol : Symbol} (h : p.Faces symbol)
      (hsymbol : symbol = .comma ∨ symbol = .assign) : Grammar.startsSuffix p.token = false := by
    refine (closes_of_faces h ?_).suffix
    rcases hsymbol with rfl | rfl <;> decide
  obtain ⟨m, hwords, hassign, hrest⟩ := h.between
  rw [expressionRows_eq] at hwords
  have hrow := row_of_spells (targets_of_spells hs hdialect (by omega) hassignable hleft)
    (fun hcomma => hends hcomma (.inl rfl)) htargets hwords (hends hassign (.inr rfl))
    (hassign.not_faces (by decide))
  refine .assignment ?_ hrow hassign
    (expressionRow_of_spells hs hdialect hvalues (by omega) hright hrest hcloses hstop)
  -- The first target is followed by a comma or the equals sign.
  obtain ⟨⟨hfirst, -⟩, hcommas⟩ := hrow
  refine not_facesContextualGoto_of_suffixed hfirst ?_
  cases hcommas with
  | nil => exact kind_of_faces hassign
  | cons hcomma => exact kind_of_faces hcomma

/-- A local declaration that is spelled is written. -/
theorem localStatement_of_spells {names : List Declarator} {values : List Expression}
    {placement : Placement} (hnesting : expressionsNesting values ≤ depth)
    (hwellFormed : (Statement.localStatement names values placement).WellFormed situation)
    (h : Spells line ((Statement.localStatement names values placement).words dialect) p q)
    (hsemicolon : q.Faces Symbol.semicolon) :
    ProperStatement dialect (ofDepth dialect depth) (.localStatement names values placement) p q := by
  obtain ⟨hnames, hfits, hvalues⟩ := hwellFormed
  obtain ⟨hlocal, hrest⟩ := h.terminal
  obtain ⟨m, hwords, hrest⟩ := spells_append.mp hrest
  have hdeclared : ∀ name ∈ names, WrittenAs line (fun q => ¬ q.Faces Symbol.colon)
      Declarator.words (Declared dialect) name := fun name hmem =>
    declared_of_spells (hdialect ▸ hfits name hmem)
  cases values with
  | nil =>
    obtain rfl : m = q := hrest
    exact .localVariables hlocal (row_of_spells hdeclared (fun hcomma => hcomma.not_faces (by decide))
      hnames hwords (hsemicolon.not_faces (by decide)) (hsemicolon.not_faces (by decide)))
      (.none (hsemicolon.not_faces (by decide)))
  | cons value rest =>
    obtain ⟨hassign, hrest⟩ := hrest.terminal
    exact .localVariables hlocal (row_of_spells hdeclared (fun hcomma => hcomma.not_faces (by decide))
      hnames hwords (hassign.not_faces (by decide)) (hassign.not_faces (by decide)))
      (.some hassign (expressionRow_of_spells hs hdialect (List.cons_ne_nil _ _) hnesting hvalues hrest
        (closes_of_faces hsemicolon (by decide)) (hsemicolon.not_faces (by decide))))

/-- A function statement that is spelled is written. -/
theorem functionStatement_of_spells {function : Function} (hnesting : function.nesting ≤ depth)
    (hnamed : function.IsNamed) (hwellFormed : function.WellFormed situation.toSurroundings)
    (h : Spells line (function.headWords dialect ++ function.bodyWords dialect) p q) :
    ProperStatement dialect (ofDepth dialect depth) (.functionStatement function) p q := by
  obtain ⟨m, hhead, hbody⟩ := spells_append.mp h
  have hfunction := functionBody_of_spells hs hdialect hnesting hwellFormed hbody
  obtain ⟨name, isLocal, parameters, body, placement⟩ := function
  cases name with
  | none => exact hnamed.elim
  | some name =>
    cases isLocal with
    | false =>
      obtain ⟨hword, hname⟩ := hhead.terminal
      exact .functionStatement hword (functionName_of_spells hnamed hname) hfunction
    | true =>
      obtain ⟨identifier, rfl⟩ := hnamed
      obtain ⟨hlocal, hhead⟩ := hhead.terminal
      obtain ⟨hword, hhead⟩ := hhead.terminal
      obtain ⟨hname, hend⟩ := hhead.name
      obtain rfl : p.step.step.step = m := hend
      exact .localFunction hlocal hword hname hfunction

/-- A numeric loop that is spelled is written. -/
theorem numericFor_of_spells {counter : Identifier} {start stop : Expression}
    {step : Option Expression} {body : Block} {placement : Placement}
    (hnesting : (Statement.numericFor counter start stop step body placement).nesting ≤ depth)
    (hwellFormed : (Statement.numericFor counter start stop step body placement).WellFormed situation)
    (h : Spells line ((Statement.numericFor counter start stop step body placement).words dialect)
      p q) : ProperStatement dialect (ofDepth dialect depth)
        (.numericFor counter start stop step body placement) p q := by
  obtain ⟨hstart, hstop, hstep, hbody⟩ := hwellFormed
  have hmax : max (max (start.nesting + 1) (stop.nesting + 1))
    (max (expressionNesting? step) body.nesting) ≤ depth := hnesting
  obtain ⟨hfor, hrest⟩ := h.terminal
  obtain ⟨hcounter, hrest⟩ := hrest.name
  obtain ⟨hassign, hrest⟩ := hrest.terminal
  obtain ⟨m, hfirst, hcomma, hrest⟩ := hrest.between
  obtain ⟨r, hlast, hrest⟩ := spells_append.mp hrest
  obtain ⟨s, hwords, hrest⟩ := spells_append.mp hrest
  obtain ⟨hdo, hrest⟩ := hrest.terminal
  have hinside : situation.loop.dialect = dialect := hdialect
  obtain ⟨t, hstatements, hend, rfl⟩ :=
    block_of_spells_between hs hinside (by omega) hbody hrest (by decide)
  obtain ⟨hstep, hcloses⟩ := loopStep_of_spells hs hdialect (by omega) hstep hwords hdo
  exact .numericFor hfor hcounter hassign
    (hs.expression hdialect (by omega) hstart _ _ hfirst (closes_of_faces hcomma (by decide))) hcomma
    (hs.expression hdialect (by omega) hstop _ _ hlast hcloses) hstep hdo hstatements hend

/-- A generic loop that is spelled is written. -/
theorem genericFor_of_spells {names : List Identifier} {iterators : List Expression} {body : Block}
    {placement : Placement} (hnesting : max (expressionsNesting iterators) body.nesting ≤ depth)
    (hwellFormed : (Statement.genericFor names iterators body placement).WellFormed situation)
    (h : Spells line ((Statement.genericFor names iterators body placement).words dialect) p q) :
    ProperStatement dialect (ofDepth dialect depth) (.genericFor names iterators body placement)
      p q := by
  obtain ⟨hnames, hiterators, hwellFormed, hbody⟩ := hwellFormed
  obtain ⟨hfor, hrest⟩ := h.terminal
  obtain ⟨m, hwords, hin, hrest⟩ := hrest.between
  obtain ⟨r, hlist, hdo, hrest⟩ := hrest.between
  have hinside : situation.loop.dialect = dialect := hdialect
  obtain ⟨t, hstatements, hend, rfl⟩ :=
    block_of_spells_between hs hinside (by omega) hbody hrest (by decide)
  have hname : ∀ name ∈ names, WrittenAs line (fun _ => True) ([.name ·]) Name name := by
    intro name _ p q h _
    obtain ⟨hname, hend⟩ := h.name
    obtain rfl : p.step = q := hend
    exact .mk hname
  exact .genericFor hfor (row_of_spells hname (fun _ => trivial) hnames hwords trivial
    (hin.not_faces nofun)) hin
    (expressionRow_of_spells hs hdialect hiterators (by omega) hwellFormed hlist
      (closes_of_faces hdo (by decide)) (hdo.not_faces nofun)) hdo hstatements hend

/-- A statement is written where its words stand with a semicolon behind them. -/
theorem statement_of_spells {v : Statement} (hnesting : v.nesting ≤ depth)
    (hwellFormed : v.WellFormed situation) (h : Spells line (v.words dialect) p q)
    (hsemicolon : q.Faces Symbol.semicolon) :
    OptionalStatement dialect (ofDepth dialect depth) (some v) p (if v.isReturn then q.step else q) := by
  have hcloses : Closes q := closes_of_faces hsemicolon (by decide)
  have hcomma : ¬ q.Faces Symbol.comma := hsemicolon.not_faces (by decide)
  cases v with
  | labelStatement label placement =>
    obtain ⟨hopen, hrest⟩ := h.terminal
    obtain ⟨hlabel, hrest⟩ := hrest.name
    obtain ⟨hclose, hend⟩ := hrest.terminal
    obtain rfl : p.step.step.step = q := hend
    exact .label (hdialect ▸ hwellFormed) hopen hlabel hclose
  | breakStatement placement =>
    obtain ⟨hbreak, hend⟩ := h.terminal
    obtain rfl : p.step = q := hend
    exact .proper (.breakStatement hbreak)
  | gotoStatement label placement =>
    obtain ⟨hgoto, hrest⟩ := h
    obtain ⟨hlabel, hend⟩ := hrest.name
    obtain rfl : p.step.step = q := hend
    refine .proper (.gotoStatement ?_ hlabel)
    have hword := hgoto.1
    rw [Dialect.gotoWord] at hword
    split at hword
    · next hcontextual =>
      refine .inr ⟨hcontextual, ?_, Token.kind_of_name hlabel⟩
      rw [Token.name?, show p.token.value = _ from congrArg Word.value hword]
    · exact .inl (congrArg Word.value hword)
  | returnStatement arguments placement =>
    have hmax : max 1 (expressionsNesting arguments) ≤ depth := hnesting
    obtain ⟨hreturn, hrest⟩ := h.terminal
    have hlist := optionalList_of_spells hs hdialect hmax hwellFormed hrest hcloses hcomma
      (startsExpression_of_faces hsemicolon (by decide))
    have hend : ¬ p.step.Faces ReservedWord.endWord := by
      cases hlist with
      | none => exact hsemicolon.not_faces (by decide)
      | some hrow =>
        obtain ⟨hfirst, -⟩ := hrow
        intro hend
        have hstarts := starts_of_written hfirst
        rw [Token.startsExpression, Token.kind, Token.isWord, Token.isWord, Token.isSymbol,
          Token.isSymbol, show p.step.token.value = _ from hend] at hstarts
        exact absurd hstarts (by decide)
    have hreturned := Returned.list hend hlist
    rw [Point.skip_of_faces hsemicolon] at hreturned
    exact .proper (.returnStatement hreturn hreturned)
  | ifStatement clauses placement =>
    exact .proper (ifStatement_of_spells hs hdialect hwellFormed.1 hnesting hwellFormed.2 h)
  | whileStatement condition body placement =>
    obtain ⟨hwhile, hrest⟩ := h.terminal
    have hinside : situation.loop.dialect = dialect := hdialect
    obtain ⟨m, r, hcondition, hdo, hbody, hend, rfl⟩ :=
      loop_of_spells hs hdialect hinside hnesting hwellFormed.1 hwellFormed.2 hrest
    exact .proper (.whileStatement hwhile hcondition hdo hbody hend)
  | doStatement body placement =>
    obtain ⟨hdo, hrest⟩ := h.terminal
    obtain ⟨r, hbody, hend, rfl⟩ :=
      block_of_spells_between hs hdialect hnesting hwellFormed hrest (by decide)
    exact .proper (.doStatement hdo hbody hend)
  | repeatStatement body condition placement =>
    have hmax : max body.nesting (condition.nesting + 1) ≤ depth := hnesting
    obtain ⟨hrepeat, hrest⟩ := h.terminal
    have hinside : situation.loop.dialect = dialect := hdialect
    obtain ⟨r, hbody, huntil, hrest⟩ :=
      block_of_spells_between hs hinside (by omega) hwellFormed.1 hrest (by decide)
    exact .proper (.repeatStatement hrepeat hbody huntil
      (hs.expression hdialect (by omega) hwellFormed.2 _ _ hrest hcloses))
  | localStatement names values placement =>
    exact .proper (localStatement_of_spells hs hdialect hnesting hwellFormed h hsemicolon)
  | assignment targets values placement =>
    exact .proper (assignment_of_spells hs hdialect hnesting hwellFormed h hcloses hcomma)
  | callStatement call placement =>
    obtain ⟨hcall, hwellFormed⟩ := hwellFormed
    have hsuffixed := suffixed_of_spells hs hdialect (takesSuffix_of_isCall hcall) hnesting
      hwellFormed h hcloses.suffix
    exact .proper (.callStatement (not_facesContextualGoto_of_suffixed hsuffixed
      (kind_of_faces hsemicolon)) hsuffixed hcall hcomma)
  | functionStatement function =>
    exact .proper (functionStatement_of_spells hs hdialect hnesting hwellFormed.1 hwellFormed.2 h)
  | numericFor counter start stop step body placement =>
    exact .proper (numericFor_of_spells hs hdialect hnesting hwellFormed h)
  | genericFor names iterators body placement =>
    exact .proper (genericFor_of_spells hs hdialect hnesting hwellFormed h)
  | structureDeclaration name fields placement =>
    obtain ⟨hword, hrest⟩ := h.terminal
    obtain ⟨hname, hrest⟩ := hrest.name
    obtain ⟨m, hfields, hend, rfl⟩ := hrest.concat
    exact .proper (.structureDeclaration hword hname (entries_of_spells hfields hend) hend)

end

/-! ## Levels and chunks -/

/-- An operand in parentheses is the same at every level. -/
theorem operand_of_spells (hs : Spelled dialect line depth) {around : Surroundings} {v : Expression}
    (level : Nat) (hdialect : around.dialect = dialect) (hnesting : v.nesting < depth)
    (hwellFormed : v.WellFormed around false) (h : Spells line (enclosed (v.words dialect)) p q)
    (hcloses : Closes q) : Operation dialect (ofDepth dialect depth) level v p q :=
  operation_of_operand (.suffixed ((Chained.enclosed
    (enclosed_of_spells hs hdialect hnesting hwellFormed h)).suffixed hcloses.suffix)) hcloses

/-- What needs fewer levels than there are is written as it is spelled, however many there are. -/
theorem spelled (dialect : Dialect) (line depth : Nat) : Spelled dialect line depth := by
  induction depth with
  | zero => exact
    { statement := fun _ h => absurd h (Nat.not_lt_zero _)
      expression := fun _ h => absurd h (Nat.not_lt_zero _)
      operand := fun _ _ h => absurd h (Nat.not_lt_zero _)
      absent := fun h => absurd h (Nat.not_lt_zero _) }
  | succ depth ih => exact
    { statement := fun hdialect hnesting hwellFormed h hsemicolon =>
        statement_of_spells ih hdialect (Nat.le_of_lt_succ hnesting) hwellFormed h hsemicolon
      expression := fun hdialect hnesting hwellFormed =>
        operation_of_spells ih hdialect (Nat.le_of_lt_succ hnesting) hwellFormed
      operand := fun level hdialect hnesting hwellFormed _ _ h hcloses =>
        operand_of_spells ih level hdialect (Nat.lt_of_succ_lt_succ hnesting) hwellFormed h hcloses
      absent := fun _ hstarts => hstarts }

/-- Behind tokens on one line stand the words that they are. -/
theorem spells_of_tokens {tokens : List Token} (hrest : p.rest = tokens)
    (hline : ∀ token ∈ tokens, token.start.line = line ∧ token.stop.line = line) :
    ∃ q, Spells line (tokens.map Token.word) p q ∧ q.token = p.last := by
  induction tokens generalizing p with
  | nil => exact ⟨p, rfl, by rw [Point.token, hrest]; rfl⟩
  | cons token tokens ih =>
    obtain ⟨htoken, hothers⟩ := List.forall_mem_cons.mp hline
    have hfirst : p.token = token := by rw [Point.token, hrest, List.headD_cons]
    have hbehind : p.step.rest = tokens := by rw [Point.step, hrest, List.tail_cons]
    obtain ⟨q, hspells, hq⟩ := ih hbehind hothers
    exact ⟨q, ⟨⟨by rw [hfirst], by rw [hfirst]; exact htoken⟩, hspells⟩, hq⟩

end Writing

open Writing

/-- A chunk is written where its words stand and the source ends behind them. -/
theorem Chunk.written_of_words {chunk : Chunk} {checksTargets : Bool} {tokens : List Token}
    {last : Token} (hlast : last.isEnd = true) (hwellFormed : chunk.WellFormed dialect checksTargets)
    (hnesting : chunk.nesting ≤ depth) (hwords : tokens.map Token.word = chunk.words dialect)
    (hline : ∀ token ∈ tokens, token.start.line = line ∧ token.stop.line = line) :
    ∃ q, chunk.Written dialect depth (.before tokens last hlast) q := by
  obtain ⟨q, hspells, hq⟩ :=
    @spells_of_tokens line (.before tokens last hlast) tokens rfl hline
  have hend : q.token.isEnd = true := hq ▸ hlast
  rw [hwords] at hspells
  refine ⟨q, block_of_spells (spelled dialect line depth) rfl hnesting hwellFormed.1 hspells ?_, hend⟩
  rw [Grammar.endsBlock, show q.token.value = .endOfInput from beq_iff_eq.mp hend]

namespace Grammar

/-- With as many levels as a well-formed tree nests, its words are read as that tree. -/
theorem chunk_gives_of_words {options : ParseOptions} {source : Text} {chunk : Chunk}
    {tokens : List Token} {last : Token} {limit : Nat} (hlast : last.isEnd = true)
    (hwellFormed : chunk.WellFormed options.dialect options.checkGotoLabels)
    (hnesting : chunk.nesting ≤ limit)
    (hwords : tokens.map Token.word = chunk.words options.dialect)
    (hline : ∀ token ∈ tokens, token.start.line = line ∧ token.stop.line = line) :
    ∃ chunk', (chunkOver (levels limit) (.ofFeed options source (.ofTokens tokens last))
      (.initial options (.ofTokens tokens last))).1 = .ok chunk' ∧ Same chunk chunk' := by
  obtain ⟨q, hwritten⟩ := Chunk.written_of_words hlast hwellFormed hnesting hwords hline
  have htokens : (tokens.map fun token => ({ token } : Delivery)).map Delivery.token = tokens :=
    (List.map_map ..).trans (List.map_id tokens)
  have hdelivered : chunk.Written options.dialect limit
      (.before ((tokens.map fun token => ({ token } : Delivery)).map Delivery.token) last hlast) q := by
    rwa [htokens]
  have hend : (Delivery.mk last []).token.isEnd = true := hlast
  exact chunk_gives hend hdelivered hwellFormed

/-- Every well-formed tree is parsed back. Let tokens on one line be its words. If it nests no deeper than
the grammar reads, they are accepted, and what they give is that tree; and if it nests deeper, they are
still read as that tree or are refused for the depth alone. -/
theorem accepted_of_words {options : ParseOptions} {source : Text} {chunk : Chunk}
    {tokens : List Token} {last : Token} (hlast : last.isEnd = true)
    (hwellFormed : chunk.WellFormed options.dialect options.checkGotoLabels)
    (hwords : tokens.map Token.word = chunk.words options.dialect)
    (hline : ∀ token ∈ tokens, token.start.line = line ∧ token.stop.line = line) :
    (chunk.nesting ≤ nestingLimit →
      ∃ chunk', (run options source (.ofTokens tokens last)).result = .ok chunk' ∧ Same chunk chunk') ∧
    (nestingLimit < chunk.nesting →
      (∃ chunk', (run options source (.ofTokens tokens last)).result = .ok chunk' ∧ Same chunk chunk') ∨
        ∃ error, (run options source (.ofTokens tokens last)).result = .error error ∧
          error.message = .tooManyLevels) := by
  rw [result_run]
  refine ⟨fun hnesting => chunk_gives_of_words hlast hwellFormed hnesting hwords hline, fun _ => ?_⟩
  -- With enough levels more the tree is read, so that only their want can stop the parse.
  rcases chunk_deeper options source (.ofTokens tokens last) nestingLimit chunk.nesting with hgivesUp | hequal
  · exact .inr hgivesUp
  · rw [← hequal]
    exact .inl (chunk_gives_of_words hlast hwellFormed (Nat.le_add_left ..) hwords hline)

/-- A loop whose body is left at once, behind the call of a function in parentheses. -/
theorem accepted_of_words_loop :
    ∃ body : Block, body.statements =
        [.whileStatement (.unary .not (.identifier { name := "x", placement := .none }) .none)
          (.mk [.callStatement (.call (.function (.mk none false [.vararg ⟨.vararg, "...", .none⟩]
            (.mk [.returnStatement [.literal ⟨.vararg, "...", .none⟩] .none] none) .none)) [] .none)
              .none, .breakStatement .none] none) .none] ∧
      ∃ chunk', (run {} [] (.ofTokens ((body.words .lua51).map fun word =>
          ⟨word.value, .start, .start, word.text⟩) (.endOfInput .start))).result = .ok chunk' ∧
        Same ⟨body, none, none, .none⟩ chunk' := by
  have hlabels : Dialect.lua51.has .labels = false := by decide
  have hrelaxed : Dialect.lua51.has .relaxedBreak = false := by decide
  refine ⟨.mk _ none, rfl, (@accepted_of_words 1 _ _ _ _ _ rfl ?_ ?_ ?_).1 (by decide)⟩
  · simp [Chunk.WellFormed, Block.WellFormed, wellFormedStatements, Statement.WellFormed,
      Expression.WellFormed, wellFormedExpressions, Function.WellFormed, Function.IsAnonymous,
      ParametersFit, Parameter.Fits, Parameter.isVararg, Statement.isLast, Expression.isCall,
      Situation.loop, Situation.behind, hlabels, hrelaxed]
  · exact (List.map_map ..).trans (List.map_id _)
  · intro token htoken
    obtain ⟨word, -, rfl⟩ := List.mem_map.mp htoken
    exact ⟨rfl, rfl⟩

end Grammar

end LuaSyntax
