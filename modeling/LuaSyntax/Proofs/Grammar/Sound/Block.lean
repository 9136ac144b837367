import LuaSyntax.Proofs.Grammar.Sound.Rule
import LuaSyntax.Proofs.Writing.Statement
import LuaSyntax.Proofs.Grammar.Lockstep.Expression

/-!
# Leaves and blocks, read

What the rules that take a name or a literal have read, and what the rules that keep book of jumps do to
what the record shows. The latter succeed only where a frame admits what is read. What the rules
for blocks and functions have read is written as the tree says, and may stand where it stands, if that
holds of what they nest.
-/

namespace LuaSyntax

open Writing

/-! ## Names up to places -/

/-- A point that has a name has every name that is the same. -/
theorem Point.Names.of_same {p : Point} {name name' : Identifier} (h : p.Names name)
    (hname : Same name name') : p.Names name' := by
  rw [Names, ← hname.name_eq]
  exact h

/-- A declared name is written where one that is the same is. -/
theorem Writing.Declared.of_same {dialect : Dialect} {p q : Point} {name name' : Declarator}
    (h : Declared dialect name p q) (hname : Same name name') : Declared dialect name' p q := by
  cases h with
  | @plain name _ h hcolon =>
    cases name' with
    | plain name' => exact .plain (h.of_same (same_plain.mp hname)) hcolon
    | typed name' => cases hname
  | @typed name type _ _ htyped h hcolon htype =>
    cases name' with
    | plain name' => cases hname
    | typed name' =>
      obtain ⟨hname, htype'⟩ := same_typedIdentifier.mp (same_typed.mp hname)
      exact .typed htyped (h.of_same hname) hcolon (htype.of_same htype')

/-- A declared name that is written has a type only where the dialect has types. -/
theorem Writing.Declared.fits {dialect : Dialect} {p q : Point} {name : Declarator}
    (h : Declared dialect name p q) : name.Fits dialect := by
  cases h with
  | plain => trivial
  | typed htyped => exact htyped

namespace Grammar

open Rule

variable {dialect : Dialect} {flow : Flow} {frame : Frame} {outer : List Frame} {p q : Point}

namespace Rule.Moves

variable {α β : Type} {post : β → Flow → Point → Prop}

/-! ## Leaves -/

/-- What was read as a name is one. -/
theorem identifier {f : Identifier → Rule β}
    (h : ∀ name, p.Names name → (f name).Moves dialect flow p.step post) :
    (Grammar.identifier >>= f).Moves dialect flow p post := by
  have hreads : Grammar.identifier.Reads dialect flow p fun name q => p.Names name ∧ q = p.step := by
    refine quiet quiet_mark fun start _ => current ?_
    cases hname : p.token.name? with
    | none => exact demand _
    | some name =>
      have hnames (placement : Placement) : p.Names { name, placement } := hname
      exact advance (hnames .none).isEnd_eq (quiet (quiet_placed start) fun placement _ =>
        quiet (quiet_complete _) fun _ _ => give ⟨rfl, hnames placement, rfl⟩)
  exact hreads.bind fun name q ⟨hname, hq⟩ => hq ▸ h name hname

/-- What was read as a name and resolved is one. -/
theorem resolved {f : Identifier → Rule β}
    (h : ∀ name, p.Names name → (f name).Moves dialect flow p.step post) :
    (Grammar.resolved >>= f).Moves dialect flow p post := by
  have hreads : Grammar.resolved.Reads dialect flow p fun name q => p.Names name ∧ q = p.step := by
    refine identifier fun name hname => ?_
    intro total context s v s' hdialect hturns hs hrun
    obtain ⟨_, scope, log, hr, hv⟩ := quiet_resolution name context s
    rw [hr] at hrun
    cases hrun
    exact ⟨flow, p.step, .refl _, hs.put scope log, rfl, hname.of_same hv, rfl⟩
  exact hreads.bind fun name q ⟨hname, hq⟩ => hq ▸ h name hname

/-- What was read as a literal is one. -/
theorem literal {f : Literal → Rule β}
    (h : ∀ literal, p.Denotes literal → (f literal).Moves dialect flow p.step post) :
    (Grammar.literal >>= f).Moves dialect flow p post := by
  have hreads : Grammar.literal.Reads dialect flow p fun literal q =>
      p.Denotes literal ∧ q = p.step := by
    refine quiet quiet_mark fun start _ => current ?_
    cases hvalue : literalValue? p.token.value with
    | none => exact refuse
    | some value =>
      have hdenotes (placement : Placement) :
          p.Denotes { value, raw := p.token.lexeme, placement } := ⟨hvalue, rfl⟩
      exact advance (hdenotes .none).isEnd_eq (quiet (quiet_placed start) fun placement _ =>
        quiet (quiet_complete _) fun _ _ => give ⟨rfl, hdenotes placement, rfl⟩)
  exact hreads.bind fun literal q ⟨hliteral, hq⟩ => hq ▸ h literal hliteral

/-- A node is completed, which is an expression but for its place. -/
theorem placedExpression {post : Expression → Flow → Point → Prop} (start : Place)
    {make : Placement → Expression} (h : ∀ placement, post (make placement) flow p) :
    (placed start >>= fun placement => completed (make placement)).Moves dialect flow p post :=
  quiet (quiet_placed start) fun placement _ => quiet (quiet_complete _) fun _ _ => give (h placement)

end Rule.Moves

/-- What was read as a declared name is written as one. -/
theorem declarator_reads :
    declarator.Reads dialect flow p fun name q => Declared dialect name p q := by
  refine .quiet quiet_mark fun start _ => .identifier fun name hname => .has (.at? (.ite ?_ ?_))
  · intro htyped
    obtain ⟨hhas, hcolon⟩ := Bool.and_eq_true_iff.mp htyped
    have hfaces : p.step.Faces Symbol.colon := of_decide_eq_true hcolon
    exact .advance hfaces.isEnd_eq (.identifier fun type htype => .quiet (quiet_placed start) fun _ _ =>
      .quiet (quiet_complete _) fun _ _ => .give ⟨rfl, .typed hhas hname hfaces htype⟩)
  · intro hplain
    refine .give ⟨rfl, .plain hname fun ⟨hhas, hcolon⟩ => ?_⟩
    rw [hhas, decide_eq_true hcolon] at hplain
    cases hplain

/-! ## Jumps -/

namespace Rule.Moves

variable {α β : Type} {post : β → Flow → Point → Prop}

/-- An operation on the record that may fail. -/
theorem checked {result : Except JumpFault α} {f : α → Rule β}
    (h : ∀ value, result = .ok value → (f value).Moves dialect flow p post) :
    (Rule.checked result >>= f).Moves dialect flow p post := by
  cases result with
  | ok value => exact h value rfl
  | error fault => exact of_fails (.bind fun _ _ => ⟨_, _, rfl⟩)

/-- What the record shows is changed. -/
theorem setJumps {flow' : Flow} {jumps : Jumps} {f : Unit → Rule β}
    (hjumps : jumps.Shows dialect flow') (h : (f ()).Moves dialect flow' p post) :
    (Rule.setJumps jumps >>= f).Moves dialect flow p post :=
  fun total context _ w s' hdialect hturns hs hrun =>
    h total context _ w s' hdialect hturns (hs.setJumps hjumps) hrun

/-- Behind the opening of a block its frame is the innermost. -/
theorem openBlock {isLoop : Bool} {f : Unit → Rule β}
    (h : (f ()).Moves dialect (flow.within ({ isLoop } :: flow.frames)) p post) :
    (Rule.openBlock isLoop >>= f).Moves dialect flow p post :=
  read (f := fun s => Rule.setJumps (s.jumps.push isLoop) >>= f) fun _ _ hs =>
    setJumps (hs.jumps.push isLoop) h

/-- Where a rule goes on no `goto` has come to a label over a local. -/
theorem goOn {f : Unit → Rule β}
    (h : (dialect.has .labels = true → frame.crossed = false) →
      (f ()).Moves dialect (flow.within (frame :: outer)) p post) :
    (Rule.goOn >>= f).Moves dialect (flow.within (frame :: outer)) p post :=
  read (f := fun s => Rule.checked s.jumps.checkDeferred >>= f) fun _ _ hs =>
    checked fun value hvalue => h (hs.jumps.checkDeferred.mp ⟨value, hvalue⟩)

/-- Behind a local that was recorded the frame has one more. -/
theorem recordLocal {name : String} {f : Unit → Rule β}
    (h : (f ()).Moves dialect (flow.within (frame.declare 1 :: outer)) p post) :
    (Rule.recordLocal name >>= f).Moves dialect (flow.within (frame :: outer)) p post :=
  read (f := fun s => Rule.setJumps (s.jumps.addLocal name) >>= f) fun _ _ hs =>
    setJumps (hs.jumps.addLocal name) h

/-- The function takes further arguments. -/
theorem allowVararg {f : Unit → Rule β}
    (h : (f ()).Moves dialect { flow with allowsVararg := true } p post) :
    (Rule.modify (fun state => { state with jumps := { state.jumps with allowsVararg := true } }) >>=
      f).Moves dialect flow p post :=
  fun total context _ w s' hdialect hturns hs hrun =>
    h total context _ w s' hdialect hturns (hs.setJumps hs.jumps.allow) hrun

/-- A block closes inside another, and jumps to some labels out of it were not settled. -/
theorem closeBlock {inside : Frame} {names : List String} {f : Unit → Rule β}
    (hnames : dialect.has .labels = true → ∀ name, (∃ count, (name, count) ∈ inside.pending) ↔
      name ∈ names ∧ name ∉ visibleLabels (frame :: outer))
    (h : (f ()).Moves dialect (flow.within (frame.jump (visibleLabels outer) names :: outer)) p post) :
    (Rule.closeBlock >>= f).Moves dialect (flow.within (inside :: frame :: outer)) p post := by
  refine read (f := fun s => Rule.checked s.jumps.pop >>= Rule.setJumps >>= f) fun _ _ hs => ?_
  rw [bind_assoc]
  refine checked fun jumps hjumps => ?_
  obtain ⟨jumps', hpop, hshows⟩ := hs.jumps.pop hnames
  obtain rfl := Except.ok.inj (hjumps.symm.trans hpop)
  exact setJumps hshows h

/-- The outermost block of a function closes. -/
theorem closeLast {f : Unit → Rule β}
    (h : (dialect.has .labels = true → flow.checksTargets = true → frame.pending = []) →
      (f ()).Moves dialect (flow.within []) p post) :
    (Rule.closeBlock >>= f).Moves dialect (flow.within [frame]) p post := by
  refine read (f := fun s => Rule.checked s.jumps.pop >>= Rule.setJumps >>= f) fun _ _ hs => ?_
  rw [bind_assoc]
  exact checked fun jumps hjumps =>
    setJumps (hs.jumps.pop_last_shows hjumps) (h (hs.jumps.pop_last.mp ⟨jumps, hjumps⟩))

end Rule.Moves

end Grammar

/-! ## Blocks and functions -/

variable {dialect : Dialect} {flow : Flow} {frame : Frame} {outer : List Frame} {p q : Point}

/-- What may come behind a statement may stand where the frame behind it is. -/
theorem Flow.situation_behind (statement : Statement) :
    ((flow.within (frame :: outer)).situation dialect).behind statement =
      (flow.within (frame.behind (visibleLabels outer) statement :: outer)).situation dialect := by
  rw [Situation.behind, Frame.behind]
  cases statement.label? <;> rfl

/-- Statements that were read where a frame was, and the frame behind them. -/
structure Flow.Passes (dialect : Dialect) (flow : Flow) (outer : List Frame) (frame : Frame)
    (statements : List Statement) (behind : Frame) : Prop where
  behind_eq : behind = frame.after (visibleLabels outer) statements
  admitted : dialect.has .labels = true → frame.AdmitsAll (visibleLabels outer) statements
  wellFormed : wellFormedStatements ((flow.within (frame :: outer)).situation dialect) statements

namespace Flow.Passes

/-- No statements are passed anywhere. -/
theorem nil : flow.Passes dialect outer frame [] frame := ⟨rfl, fun _ => trivial, trivial⟩

/-- One statement is passed if the frame admits it and it is well-formed there. -/
theorem singleton {statement : Statement}
    (hadmits : dialect.has .labels = true → frame.Admits statement)
    (h : statement.WellFormed ((flow.within (frame :: outer)).situation dialect)) :
    flow.Passes dialect outer frame [statement] (frame.behind (visibleLabels outer) statement) :=
  ⟨rfl, fun hlabels => ⟨hadmits hlabels, trivial⟩, h, trivial⟩

/-- Statements are passed one part after another. -/
theorem append {middle behind : Frame} {statements more : List Statement}
    (h : flow.Passes dialect outer frame statements middle)
    (h' : flow.Passes dialect outer middle more behind) :
    flow.Passes dialect outer frame (statements ++ more) behind := by
  obtain ⟨rfl, hadmitted, hwellFormed⟩ := h
  obtain ⟨rfl, hadmitted', hwellFormed'⟩ := h'
  refine ⟨Frame.after_append.symm, fun hlabels =>
    Frame.admitsAll_append.mpr ⟨hadmitted hlabels, hadmitted' hlabels⟩, ?_⟩
  clear hadmitted hadmitted'
  induction statements generalizing frame with
  | nil => exact hwellFormed'
  | cons statement rest ih =>
    refine ⟨hwellFormed.1, ?_⟩
    rw [situation_behind]
    exact ih (situation_behind statement ▸ hwellFormed.2) hwellFormed'

end Flow.Passes

namespace Grammar

open Rule

/-- What an expression that may be missing has read. -/
def ExpressionRead (dialect : Dialect) (inner : Writing) (level : Nat) (flow : Flow) (p : Point) :
    Option Expression → Point → Prop
  | none, q => q = p ∧ inner.absent p
  | some expression, q => inner.expression level expression p q ∧
    expression.WellFormed (flow.surroundings dialect) false

/-- Nested rules that read what is written so. -/
structure Nested.Sound (dialect : Dialect) (nested : Nested) (inner : Writing) : Prop where
  advances : nested.Advances
  statement : ∀ (flow : Flow) frame outer p, nested.statement.Moves dialect (flow.within (frame :: outer)) p
    fun v flow' q => ∃ behind, flow' = flow.within (behind :: outer) ∧ inner.statement v p q ∧
      flow.Passes dialect outer frame v.toList behind
  expression : ∀ level (flow : Flow) p,
    (nested.expression level).Reads dialect flow p (ExpressionRead dialect inner level flow p)
  isLast : ∀ statement p q, inner.statement (some statement) p q → statement.isLast dialect = true →
    p.Faces ReservedWord.returnWord ∨
      (p.Faces ReservedWord.breakWord ∧ dialect.has .relaxedBreak = false)

section

variable {nested : Nested} {inner : Writing} (hn : nested.Sound dialect inner)

/-- What a turn of a block has read. -/
inductive BlockTurnRead (dialect : Dialect) (inner : Writing) (flow : Flow) (outer : List Frame) :
    Turn (Option Statement) → Frame × Point → Frame × Point → Prop where
  | stop {frame : Frame} {p : Point} : endsBlock p.token = true →
      BlockTurnRead dialect inner flow outer .stop (frame, p) (frame, p)
  | last {frame behind : Frame} {statement : Option Statement} {p q : Point} :
      flow.Passes dialect outer frame statement.toList behind → p.Faces ReservedWord.returnWord →
      inner.statement statement p q →
      BlockTurnRead dialect inner flow outer (.last statement) (frame, p) (behind, q)
  | lastBreak {frame behind : Frame} {statement : Option Statement} {p q : Point} :
      flow.Passes dialect outer frame statement.toList behind → p.Faces ReservedWord.breakWord →
      dialect.has .relaxedBreak = false → inner.statement statement p q →
      BlockTurnRead dialect inner flow outer (.last statement) (frame, p) (behind, q.skip Symbol.semicolon)
  | more {frame behind : Frame} {statement : Option Statement} {p q : Point} :
      flow.Passes dialect outer frame statement.toList behind → endsBlock p.token = false →
      ¬ p.Faces ReservedWord.returnWord →
      ¬ (p.Faces ReservedWord.breakWord ∧ dialect.has .relaxedBreak = false) →
      inner.statement statement p q →
      BlockTurnRead dialect inner flow outer (.more statement) (frame, p) (behind, q.skip Symbol.semicolon)

include hn

/-- What a turn of a block has read is written as one part of a block. -/
theorem blockTurn_moves : (blockTurn nested).Moves dialect (flow.within (frame :: outer)) p
    fun v flow' q => ∃ behind, flow' = flow.within (behind :: outer) ∧
      BlockTurnRead dialect inner flow outer v (frame, p) (behind, q) := by
  refine .current (.ite (fun hends => ?_) fun hends => ?_)
  · exact .give ⟨frame, rfl, .stop hends⟩
  refine .has ((hn.statement flow frame outer p).andThen fun statement flow' q hstatement => ?_)
  obtain ⟨behind, rfl, hwritten, hpasses⟩ := hstatement
  have hword (word : ReservedWord) : p.token.isWord word = true ↔ p.Faces word := beq_iff_eq
  refine .ite (fun hlast => .ite (fun hbreak => ?_) fun hbreak => ?_) fun hmore => ?_
  · obtain ⟨hfaces, hrelaxed⟩ : p.Faces ReservedWord.breakWord ∧ dialect.has .relaxedBreak = false := by
      have hfaces := (hword _).mp hbreak
      refine ⟨hfaces, ?_⟩
      have hreturn : p.token.isWord .returnWord = false := by
        rw [Token.isWord, show p.token.value = _ from hfaces]
        rfl
      simpa [hreturn, hbreak] using hlast
    exact .skip (.give ⟨behind, rfl, .lastBreak hpasses hfaces hrelaxed hwritten⟩)
  · have hreturn : p.Faces ReservedWord.returnWord := by
      simpa [hbreak, hword] using hlast
    exact .give ⟨behind, rfl, .last hpasses hreturn hwritten⟩
  · refine .skip (.give ⟨behind, rfl, .more hpasses hends (fun hreturn => ?_)
      (fun hbreak => ?_) hwritten⟩)
    · simp [(hword _).mpr hreturn] at hmore
    · simp [(hword _).mpr hbreak.1, hbreak.2] at hmore

omit hn in
/-- What is left of one item among those that may be missing. -/
theorem filterMap_id_cons {α : Type} (item : Option α) (rest : List (Option α)) :
    (item :: rest).filterMap id = item.toList ++ rest.filterMap id := by
  cases item <;> rfl

omit hn in
/-- Turns that were read pass their statements. -/
theorem Turned.passes {items : List (Option Statement)} {a b : Frame × Point}
    (h : Turned (BlockTurnRead dialect inner flow outer) items a b) :
    flow.Passes dialect outer a.1 (items.filterMap id) b.1 := by
  induction h with
  | stop hturn =>
    cases hturn
    exact .nil
  | last hturn =>
    rw [filterMap_id_cons, List.filterMap_nil, List.append_nil]
    cases hturn with
    | last hpasses => exact hpasses
    | lastBreak hpasses => exact hpasses
  | more hturn _ ih =>
    rw [filterMap_id_cons]
    cases hturn with
    | more hpasses => exact hpasses.append ih

omit hn in
/-- Turns that were read have written their statements. -/
theorem Turned.statements {items : List (Option Statement)} {a b : Frame × Point}
    (h : Turned (BlockTurnRead dialect inner flow outer) items a b) :
    Statements dialect inner (items.filterMap id) a.2 b.2 := by
  induction h with
  | stop hturn =>
    cases hturn with
    | stop hends => exact .nil hends
  | last hturn =>
    rw [filterMap_id_cons, List.filterMap_nil, List.append_nil]
    cases hturn with
    | last _ hreturn hwritten => exact .last hreturn hwritten
    | lastBreak _ hbreak hrelaxed hwritten => exact .lastBreak hbreak hrelaxed hwritten
  | more hturn _ ih =>
    rw [filterMap_id_cons]
    cases hturn with
    | more _ hends hreturn hbreak hwritten => exact .more hends hreturn hbreak hwritten ih

omit hn in
/-- Only the last statement of a block is written like one. -/
theorem isLast_of_mem_dropLast
    (hlast : ∀ statement p q, inner.statement (some statement) p q → statement.isLast dialect = true →
      p.Faces ReservedWord.returnWord ∨
        (p.Faces ReservedWord.breakWord ∧ dialect.has .relaxedBreak = false))
    {statements : List Statement} (h : Statements dialect inner statements p q) :
    ∀ statement ∈ statements.dropLast, statement.isLast dialect = false := by
  have hnone (statement : Option Statement) : statement.toList.dropLast = [] := by
    cases statement <;> rfl
  induction h with
  | nil => exact List.forall_mem_nil _
  | last =>
    rw [hnone]
    exact List.forall_mem_nil _
  | lastBreak =>
    rw [hnone]
    exact List.forall_mem_nil _
  | @more statement rest p q r _ hreturn hbreak hwritten _ ih =>
    intro other hmem
    cases statement with
    | none => exact ih other hmem
    | some statement =>
      cases rest with
      | nil => cases hmem
      | cons next rest =>
        rcases List.mem_cons.mp hmem with rfl | hmem
        · refine Bool.eq_false_iff.mpr fun h => ?_
          exact (hlast _ _ _ hwritten h).elim hreturn hbreak
        · exact ih other hmem

/-- The statements of a block. -/
theorem statements_moves : (statements nested).Moves dialect (flow.within (frame :: outer)) p
    fun v flow' q => ∃ behind, flow' = flow.within (behind :: outer) ∧
      flow.Passes dialect outer frame v behind ∧ Statements dialect inner v p q := by
  have hturns := Moves.repeated (fun frame => flow.within (frame :: outer)) (i := frame) (p := p)
    (blockTurn_advances hn.advances) fun frame p => blockTurn_moves hn
  exact hturns.andThen fun items flow' q ⟨behind, hflow, hitems⟩ =>
    .give ⟨behind, hflow, hitems.passes, hitems.statements⟩

omit hn in
/-- Statements that were read one behind the other make a block. -/
theorem wellFormed_block {isLoop isRepeat : Bool} {statements : List Statement} {behind : Frame}
    {scope : Option (List Binding)}
    (hlast : ∀ statement ∈ statements.dropLast, statement.isLast dialect = false)
    (hpasses : flow.Passes dialect outer { isLoop } statements behind)
    (hrepeat : isRepeat = true → dialect.has .labels = true → behind.crossed = false) :
    (Block.mk statements scope).WellFormed ((flow.within ({ isLoop } :: outer)).situation dialect)
      isRepeat := by
  obtain ⟨rfl, hadmitted, hwellFormed⟩ := hpasses
  exact ⟨fun hlabels => orderly_iff.mpr ⟨hadmitted hlabels, fun h => hrepeat h hlabels⟩, hlast,
    hwellFormed⟩

omit hn in
/-- No jump leaves the outermost block of a function if none waits at its end. -/
theorem escaping_eq_nil {isLoop : Bool} {body : Block} {behind : Frame}
    (hbehind : behind = Frame.after [] { isLoop } body.statements) (hpending : behind.pending = []) :
    body.escaping = [] := by
  refine List.eq_nil_iff_forall_not_mem.mpr fun name hname => ?_
  obtain ⟨count, hmem⟩ : ∃ count, (name, count) ∈ behind.pending := by
    rw [hbehind]
    exact Frame.mem_pending_after.mpr ⟨hname, List.not_mem_nil⟩
  rw [hpending] at hmem
  cases hmem

/-- The statements of a block inside another. What jumps out of it waits in the other. -/
theorem Rule.Moves.innerBlock {β : Type} {isLoop : Bool} {f : List Statement → Rule β}
    {post : β → Flow → Point → Prop}
    (h : ∀ statements q, Statements dialect inner statements p q →
      (∀ scope, (Block.mk statements scope).WellFormed
        ((flow.within ({ isLoop } :: frame :: outer)).situation dialect) false) →
      (f statements).Moves dialect (flow.within
        (frame.jump (visibleLabels outer) (Block.mk statements none).escaping :: outer)) q post) :
    (Rule.openBlock isLoop >>= fun _ => statements nested >>= fun statements =>
      Rule.closeBlock >>= fun _ => f statements).Moves dialect (flow.within (frame :: outer)) p
        post := by
  have hmoves : (statements nested).Moves dialect (flow.within ({ isLoop } :: frame :: outer)) p _ :=
    statements_moves hn
  refine .openBlock (hmoves.andThen ?_)
  rintro statements _ q ⟨behind, rfl, hpasses, hstatements⟩
  have hlast := isLast_of_mem_dropLast hn.isLast hstatements
  have hnames := fun name => @Frame.mem_pending_after name (visibleLabels (frame :: outer)) isLoop
    (.mk statements none)
  exact .closeBlock (fun _ => hpasses.behind_eq ▸ hnames) (h statements q hstatements
    fun _ => wellFormed_block hlast hpasses nofun)

/-- A block with a scope of its own is written as its statements and well-formed where it stands. -/
theorem scopedBlock_moves (isLoop : Bool) :
    (scopedBlock nested isLoop).Moves dialect (flow.within (frame :: outer)) p fun body flow' q =>
      flow' = flow.within (frame.jump (visibleLabels outer) body.escaping :: outer) ∧
        Statements dialect inner body.statements p q ∧
          body.WellFormed ((flow.within ({ isLoop } :: frame :: outer)).situation dialect) false :=
  .quiet quiet_openScope fun _ _ => .innerBlock hn fun _ _ hstatements hwellFormed =>
    .quiet quiet_closeScope fun scope _ => .give ⟨rfl, hstatements, hwellFormed scope⟩

end

/-! ### Functions -/

/-- Parameters that are written in a row can stand together. -/
theorem parametersFit {parameters : List Parameter} (h : ParameterRow dialect parameters p q) :
    ParametersFit dialect parameters := by
  have hfits {name : Declarator} {p q : Point} (h : Declared dialect name p q) :
      name.parameter.Fits dialect ∧ name.parameter.isVararg = false := by
    cases h with
    | plain => exact ⟨trivial, rfl⟩
    | typed htyped => exact ⟨htyped, rfl⟩
  induction h with
  | last hname => exact ⟨List.forall_mem_singleton.mpr (hfits hname).1, List.forall_mem_nil _⟩
  | dots hdots hvalue => exact ⟨List.forall_mem_singleton.mpr hvalue, List.forall_mem_nil _⟩
  | @more name rest _ _ _ hname _ hrest ih =>
    refine ⟨List.forall_mem_cons.mpr ⟨(hfits hname).1, ih.1⟩, ?_⟩
    cases rest with
    | nil => cases hrest
    | cons next rest => exact List.forall_mem_cons.mpr ⟨(hfits hname).2, ih.2⟩

/-- What a turn of the parameters has read, and whether three dots are among them. -/
inductive ParameterTurnRead (dialect : Dialect) :
    Turn Parameter → Bool × Point → Bool × Point → Prop where
  | last {dots : Bool} {name : Declarator} {p q : Point} : Declared dialect name p q →
      q.Faces Symbol.rightParen →
      ParameterTurnRead dialect (.last name.parameter) (dots, p) (dots, q.step)
  | dots {dots : Bool} {literal : Literal} {p : Point} : p.Denotes literal →
      literal.value = .vararg → p.step.Faces Symbol.rightParen →
      ParameterTurnRead dialect (.last (.vararg literal)) (dots, p) (true, p.step.step)
  | more {dots : Bool} {name : Declarator} {p q : Point} : Declared dialect name p q →
      q.Faces Symbol.comma →
      ParameterTurnRead dialect (.more name.parameter) (dots, p) (dots, q.step)

/-- To declare a parameter is quiet, and gives the parameter that its name makes. -/
theorem quiet_declaredParameter (name : Declarator) : (declaredParameter name).Quiet fun parameter =>
    ∃ name' : Declarator, Same name name' ∧ parameter = name'.parameter := by
  cases name with
  | plain name =>
    exact (quiet_declare name).bind fun name' hname =>
      quiet_give ⟨.plain name', same_plain.mpr hname, rfl⟩
  | typed name =>
    exact (quiet_declare name.name).bind fun name' hname =>
      quiet_give ⟨.typed { name with name := name' },
        same_typed.mpr (same_typedIdentifier.mpr ⟨hname, .refl _⟩), rfl⟩

/-- What a turn of a list of parameters has read is written as one of them. -/
theorem parameterTurn_moves {dots : Bool} :
    parameterTurn.Moves dialect { flow with allowsVararg := dots } p fun v flow' q =>
      ∃ dots', flow' = { flow with allowsVararg := dots' } ∧
        ParameterTurnRead dialect v (dots, p) (dots', q) := by
  refine .current ?_
  split
  · refine declarator_reads.bind fun name q hname => .quiet (quiet_declaredParameter name) ?_
    rintro _ ⟨name', hsame, rfl⟩
    replace hname := hname.of_same hsame
    refine .ifConsume (fun hcomma => ?_) fun _ => .expect fun hparen => ?_
    · exact .give ⟨dots, rfl, .more hname hcomma⟩
    · exact .give ⟨dots, rfl, .last hname hparen⟩
  · next hkind =>
    refine .allowVararg (.literal fun literal hliteral => .expect fun hparen => ?_)
    have htoken : p.token.value = .vararg := by
      rw [Token.kind] at hkind
      cases h : p.token.value <;> rw [h] at hkind <;> first | rfl | cases hkind
    have hvalue := hliteral.1
    rw [htoken] at hvalue
    exact .give ⟨true, rfl, .dots hliteral (Option.some.inj hvalue).symm hparen⟩
  · exact .demand _

/-- A parameter with a name is not the dots. -/
@[simp] theorem isVararg_parameter (name : Declarator) : name.parameter.isVararg = false := by
  cases name <;> rfl

/-- Turns that were read are a row of parameters, with dots at its end at most. -/
theorem Turned.parameters {items : List Parameter} {a b : Bool × Point}
    (h : Turned (ParameterTurnRead dialect) items a b) :
    ParameterRow dialect items a.2 b.2 ∧ b.1 = (a.1 || items.any Parameter.isVararg) := by
  induction h with
  | stop hturn => cases hturn
  | last hturn =>
    cases hturn with
    | last hname hparen => exact ⟨.last hname hparen, by simp⟩
    | dots hdots hvalue hparen => exact ⟨.dots hdots hvalue hparen, by simp [Parameter.isVararg]⟩
  | more hturn _ ih =>
    cases hturn with
    | more hname hcomma => exact ⟨.more hname hcomma ih.1, by simp [ih.2]⟩

/-- Parameters with their parentheses. -/
theorem parameters_moves (h : flow.allowsVararg = false) :
    parameters.Moves dialect flow p fun parameters flow' q =>
      flow' = { flow with allowsVararg := parameters.any Parameter.isVararg } ∧
        Parameters dialect parameters p q ∧ ParametersFit dialect parameters := by
  have hflow : flow = { flow with allowsVararg := false } := by rw [← h]
  refine .expect fun hleft => .ifConsume (fun hright => ?_) fun _ => ?_
  · exact .give ⟨hflow, .none hleft hright, List.forall_mem_nil _, List.forall_mem_nil _⟩
  have hturns : (Rule.repeated parameterTurn).Moves dialect { flow with allowsVararg := false } p.step
      fun items flow' q => ∃ dots, flow' = { flow with allowsVararg := dots } ∧
        Turned (ParameterTurnRead dialect) items (false, p.step) (dots, q) :=
    Moves.repeated (fun dots => { flow with allowsVararg := dots }) Pairing.parameterTurn_advances
      fun _ _ => parameterTurn_moves
  rw [← hflow] at hturns
  refine hturns.mono fun items flow' q ⟨dots, hflow', hitems⟩ => ?_
  obtain ⟨hrow, rfl⟩ := hitems.parameters
  exact ⟨hflow', .some hleft hrow, parametersFit hrow⟩

/-- A rule that only keeps books and is only sometimes there, before another. -/
theorem Rule.Moves.branch {β : Type} {c : Bool} {kind : Unit → Prop} {a : Rule Unit} {b : Rule β}
    {post : β → Flow → Point → Prop} (ha : a.Quiet kind) (hb : b.Moves dialect flow p post) :
    (if c = true then a >>= fun _ => b else b).Moves dialect flow p post :=
  .ite (fun _ => .quiet ha fun _ _ => hb) fun _ => hb

/-- A function behind its name. -/
theorem functionBody_reads {nested : Nested} {inner : Writing} (hn : nested.Sound dialect inner)
    (name : Option Expression) (isLocal isMethod : Bool) (start : Place) :
    (functionBody nested name isLocal isMethod start).Reads dialect flow p fun function q =>
      (∃ parameters body placement, function = .mk name isLocal parameters body placement) ∧
        FunctionBody dialect inner function p q ∧
          function.WellFormed (flow.surroundings dialect) := by
  refine .quiet quiet_openScope fun _ _ => .branch (quiet_declareName "self") ?_
  refine .read fun total s hs => .setJumps hs.jumps.fresh (.openBlock ?_)
  refine (parameters_moves rfl).andThen ?_
  rintro parameters _ q ⟨rfl, hparameters, hfit⟩
  have hmoves : (statements nested).Moves dialect (Flow.within
      { flow with allowsVararg := parameters.any Parameter.isVararg } [{ isLoop := false }]) q _ :=
    statements_moves hn
  refine hmoves.andThen ?_
  rintro statements _ r ⟨behind, rfl, hpasses, hstatements⟩
  refine .closeLast fun hpending => .setJumps hs.jumps (.expect fun hend => ?_)
  refine .quiet quiet_closeScope fun scope _ => .quiet (quiet_placed start) fun placement _ => ?_
  have hbody : (Block.mk statements scope).WellFormed _ false :=
    wellFormed_block (isLast_of_mem_dropLast hn.isLast hstatements) hpasses nofun
  refine .give ⟨rfl, ⟨_, _, _, rfl⟩, .mk hparameters hstatements hend, hfit, hbody, ?_⟩
  intro hlabels hchecks
  exact @escaping_eq_nil _ (.mk statements scope) _ hpasses.behind_eq (hpending hlabels hchecks)

/-- One more member in the name of a function, and what it makes of what stands before it. -/
inductive NameStepRead : Expression × Point → Expression × Point → Prop where
  | mk {base : Expression} {name : Identifier} {placement : Placement} {p : Point} :
      p.Faces Symbol.dot → p.step.Names name →
      NameStepRead (base, p) (.member base .dot name placement, p.step.step)

/-- What is written as names with dots between them is a path. -/
theorem isPath {name : Expression} (h : NamePath name p q) : name.IsPath := by
  induction h with
  | name => trivial
  | member _ _ _ ih => exact ih

/-- The name of a function that was read is written as one and is one. -/
theorem functionName_reads : functionName.Reads dialect flow p fun v q =>
    FunctionName v.1 p q ∧ v.1.IsFunctionName := by
  have hstep (start : Place) (base : Expression) (p : Point) :
      (nameStep start base).Reads dialect flow p fun v q =>
        StepRead NameStepRead (fun _ => True) base p v q := by
    refine .ifConsume (fun hdot => .identifier fun name hname => ?_) fun _ => ?_
    · refine .quiet (quiet_placedExpression start _) ?_
      rintro _ ⟨placement, rfl⟩
      exact .give ⟨rfl, .mk hdot hname⟩
    · exact .give ⟨rfl, rfl, trivial⟩
  have hpath {first last : Expression × Point} (h : Relation.ReflTransGen NameStepRead first last)
      (hfirst : NamePath first.1 p first.2) : NamePath last.1 p last.2 := by
    induction h with
    | refl => exact hfirst
    | tail _ hstep ih =>
      cases hstep with
      | mk hdot hname => exact .member ih hdot hname
  refine .quiet quiet_mark fun start _ => .resolved fun first hfirst => ?_
  refine (Moves.iterated (Pairing.nameStep_advances start) (hstep start)).bind ?_
  rintro base q ⟨hsteps, -⟩
  have hbase := hpath hsteps (.name hfirst)
  refine .ifConsume (fun hcolon => .identifier fun name hname => ?_) fun _ => ?_
  · refine .quiet (quiet_placedExpression start _) ?_
    rintro _ ⟨placement, rfl⟩
    exact .give ⟨rfl, .method hbase hcolon hname, isPath hbase⟩
  · have hname : base.IsFunctionName := by
      cases hbase with
      | name => trivial
      | member hbase hdot hname => exact isPath (.member hbase hdot hname)
    exact .give ⟨rfl, .function hbase, hname⟩

end Grammar

end LuaSyntax
