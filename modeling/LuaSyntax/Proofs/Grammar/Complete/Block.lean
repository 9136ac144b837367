import LuaSyntax.Proofs.Grammar.Complete.Rule
import LuaSyntax.Proofs.Grammar.Nodes
import LuaSyntax.Proofs.Grammar.Sound.Block

/-!
# Leaves and blocks, given

What the rules that take a name or a literal give where one stands, and the rules that keep book of
jumps, which succeed where a frame admits what is read. Where a block or a function is written that may
stand there, the rule for it gives it, if the rules that it nests give what is written with them.
-/

namespace LuaSyntax

open Writing

/-- Literals are the same if they denote the same and are written the same. -/
theorem same_literal {a b : Literal} : Same a b ↔ a.value = b.value ∧ a.raw = b.raw := by
  obtain ⟨value, raw, placement⟩ := a
  obtain ⟨value', raw', placement'⟩ := b
  simp [Same, blur, Literal.erase, Erasure.annotations]

namespace Grammar

open Rule

variable {dialect : Dialect} {flow flow' : Flow} {frame : Frame} {outer : List Frame} {p q m : Point}

namespace Rule.Gives

variable {α β : Type} {kind : β → Prop}

/-! ## Leaves -/

/-- Where a name stands it is taken. -/
theorem identifier {f : Identifier → Rule β} {name : Identifier} (hname : p.Names name)
    (h : ∀ name', Same name name' → (f name').Gives dialect flow p.step kind flow' q) :
    (Grammar.identifier >>= f).Gives dialect flow p kind flow' q := by
  have hgives : Grammar.identifier.Gives dialect flow p (Same name) flow p.step := by
    refine quiet quiet_mark fun start _ => current ?_
    rw [show p.token.name? = some name.name from hname]
    exact advance hname.isEnd_eq (quiet (quiet_placed start) fun placement _ =>
      quiet (quiet_complete _) fun _ _ => give (same_identifier.mpr rfl))
  exact hgives.bind h

/-- Where a name stands it is taken, and said to be local or not. -/
theorem resolved {f : Identifier → Rule β} {name : Identifier} (hname : p.Names name)
    (h : ∀ name', Same name name' → (f name').Gives dialect flow p.step kind flow' q) :
    (Grammar.resolved >>= f).Gives dialect flow p kind flow' q := by
  have hgives : Grammar.resolved.Gives dialect flow p (Same name) flow p.step :=
    identifier hname fun name' hname' => by
      intro total context s _ _ hs
      obtain ⟨found, scope, log, hr, hv⟩ := quiet_resolution name' context s
      exact ⟨found, _, hr, hs.put scope log, hname'.trans hv⟩
  exact hgives.bind h

/-- Where a literal stands it is taken. -/
theorem literal {f : Literal → Rule β} {literal : Literal} (hliteral : p.Denotes literal)
    (h : ∀ literal', Same literal literal' → (f literal').Gives dialect flow p.step kind flow' q) :
    (Grammar.literal >>= f).Gives dialect flow p kind flow' q := by
  have hgives : Grammar.literal.Gives dialect flow p (Same literal) flow p.step := by
    refine quiet quiet_mark fun start _ => current ?_
    rw [hliteral.1]
    exact advance hliteral.isEnd_eq (quiet (quiet_placed start) fun placement _ =>
      quiet (quiet_complete _) fun _ _ => give (same_literal.mpr ⟨rfl, hliteral.2.symm⟩))
  exact hgives.bind h

/-- A node is completed, which is an expression but for its place. -/
theorem placedExpression {kind : Expression → Prop} (start : Place) {make : Placement → Expression}
    (h : ∀ placement, kind (make placement)) :
    (placed start >>= fun placement => completed (make placement)).Gives dialect flow p kind flow p :=
  quiet (quiet_placed start) fun placement _ => quiet (quiet_complete _) fun _ _ => give (h placement)

end Rule.Gives

/-- Where a declared name stands, with its type if there may be one, it is taken. -/
theorem declarator_gives {name : Declarator} (h : Declared dialect name p q) :
    declarator.Gives dialect flow p (Same name) flow q := by
  refine .quiet quiet_mark fun start _ => ?_
  cases h with
  | plain hname hcolon =>
    refine .identifier hname fun name' hname' => .has (.at? (.no ?_ (.give (same_plain.mpr hname'))))
    simpa using hcolon
  | typed htyped hname hcolon htype =>
    refine .identifier hname fun name' hname' => .has (.at? (.yes ?_ (.advance hcolon.isEnd_eq
      (.identifier htype fun type' htype' => .quiet (quiet_placed start) fun _ _ =>
        .quiet (quiet_complete _) fun _ _ =>
          .give (same_typed.mpr (same_typedIdentifier.mpr ⟨hname', htype'⟩))))))
    rw [htyped, decide_eq_true hcolon]
    rfl

/-! ## Jumps -/

namespace Rule.Gives

variable {α β : Type} {kind : β → Prop}

/-- An operation on the record that does not fail. -/
theorem checked {result : Except JumpFault α} {value : α} {f : α → Rule β}
    (hresult : result = .ok value) (h : (f value).Gives dialect flow p kind flow' q) :
    (Rule.checked result >>= f).Gives dialect flow p kind flow' q := by
  rw [hresult]
  exact h

/-- What the record shows is changed. -/
theorem setJumps {mid : Flow} {jumps : Jumps} {f : Unit → Rule β} (hjumps : jumps.Shows dialect mid)
    (h : (f ()).Gives dialect mid p kind flow' q) :
    (Rule.setJumps jumps >>= f).Gives dialect flow p kind flow' q :=
  fun total context _ hdialect hturns hs => h total context _ hdialect hturns (hs.setJumps hjumps)

/-- A block is opened before what is written in it. -/
theorem openBlock {isLoop : Bool} {f : Unit → Rule β}
    (h : (f ()).Gives dialect (flow.within ({ isLoop } :: flow.frames)) p kind flow' q) :
    (Rule.openBlock isLoop >>= f).Gives dialect flow p kind flow' q :=
  read (f := fun s => Rule.setJumps (s.jumps.push isLoop) >>= f) fun _ _ hs =>
    setJumps (hs.jumps.push isLoop) h

/-- Something may follow where no `goto` has come to a label over a local. -/
theorem goOn {f : Unit → Rule β} (hcrossed : dialect.has .labels = true → frame.crossed = false)
    (h : (f ()).Gives dialect (flow.within (frame :: outer)) p kind flow' q) :
    (Rule.goOn >>= f).Gives dialect (flow.within (frame :: outer)) p kind flow' q :=
  read (f := fun s => Rule.checked s.jumps.checkDeferred >>= f) fun _ _ hs => by
    obtain ⟨value, hvalue⟩ := hs.jumps.checkDeferred.mpr hcrossed
    exact checked hvalue h

/-- A local is declared in the innermost frame. -/
theorem recordLocal {name : String} {f : Unit → Rule β}
    (h : (f ()).Gives dialect (flow.within (frame.declare 1 :: outer)) p kind flow' q) :
    (Rule.recordLocal name >>= f).Gives dialect (flow.within (frame :: outer)) p kind flow' q :=
  read (f := fun s => Rule.setJumps (s.jumps.addLocal name) >>= f) fun _ _ hs =>
    setJumps (hs.jumps.addLocal name) h

/-- The function takes further arguments. -/
theorem allowVararg {f : Unit → Rule β}
    (h : (f ()).Gives dialect { flow with allowsVararg := true } p kind flow' q) :
    (Rule.modify (fun state => { state with jumps := { state.jumps with allowsVararg := true } }) >>=
      f).Gives dialect flow p kind flow' q :=
  fun total context _ hdialect hturns hs =>
    h total context _ hdialect hturns (hs.setJumps hs.jumps.allow)

/-- A block closes inside another, and jumps to some labels out of it were not settled. -/
theorem closeBlock {inside : Frame} {names : List String} {f : Unit → Rule β}
    (hnames : dialect.has .labels = true → ∀ name, (∃ count, (name, count) ∈ inside.pending) ↔
      name ∈ names ∧ name ∉ visibleLabels (frame :: outer))
    (h : (f ()).Gives dialect (flow.within (frame.jump (visibleLabels outer) names :: outer)) p kind
      flow' q) :
    (Rule.closeBlock >>= f).Gives dialect (flow.within (inside :: frame :: outer)) p kind flow' q := by
  refine read (f := fun s => Rule.checked s.jumps.pop >>= Rule.setJumps >>= f) fun _ _ hs => ?_
  rw [bind_assoc]
  obtain ⟨jumps, hpop, hshows⟩ := hs.jumps.pop hnames
  exact checked hpop (setJumps hshows h)

/-- The outermost block of a function closes. -/
theorem closeLast {f : Unit → Rule β}
    (hpending : dialect.has .labels = true → flow.checksTargets = true → frame.pending = [])
    (h : (f ()).Gives dialect (flow.within []) p kind flow' q) :
    (Rule.closeBlock >>= f).Gives dialect (flow.within [frame]) p kind flow' q := by
  refine read (f := fun s => Rule.checked s.jumps.pop >>= Rule.setJumps >>= f) fun _ _ hs => ?_
  rw [bind_assoc]
  obtain ⟨jumps, hpop⟩ := hs.jumps.pop_last.mpr hpending
  exact checked hpop (setJumps (hs.jumps.pop_last_shows hpop) h)

end Rule.Gives

end Grammar

/-! ## Blocks and functions -/

variable {dialect : Dialect} {flow flow' : Flow} {frame behind : Frame} {outer : List Frame}
  {p q m : Point} {statements more : List Statement}

/-! ### Statements one behind the other -/

namespace Flow.Passes

/-- Statements are passed one part after another. -/
theorem split (h : flow.Passes dialect outer frame (statements ++ more) behind) :
    ∃ middle, flow.Passes dialect outer frame statements middle ∧
      flow.Passes dialect outer middle more behind := by
  obtain ⟨rfl, hadmitted, hwellFormed⟩ := h
  have hparts : wellFormedStatements ((flow.within (frame :: outer)).situation dialect) statements ∧
      wellFormedStatements ((flow.within
        (frame.after (visibleLabels outer) statements :: outer)).situation dialect) more := by
    clear hadmitted
    induction statements generalizing frame with
    | nil => exact ⟨trivial, hwellFormed⟩
    | cons statement rest ih =>
      have hrest := hwellFormed.2
      rw [situation_behind] at hrest
      obtain ⟨hstatements, hmore⟩ := ih hrest
      refine ⟨⟨hwellFormed.1, ?_⟩, hmore⟩
      rwa [situation_behind]
  have hadmits := fun hlabels => Frame.admitsAll_append.mp (hadmitted hlabels)
  exact ⟨_, ⟨rfl, fun hlabels => (hadmits hlabels).1, hparts.1⟩, Frame.after_append,
    fun hlabels => (hadmits hlabels).2, hparts.2⟩

/-- The statements of a block that may stand in a place are passed. -/
theorem of_wellFormed {isLoop isRepeat : Bool} {scope : Option (List Binding)}
    (h : (Block.mk statements scope).WellFormed
      ((flow.within ({ isLoop } :: outer)).situation dialect) isRepeat) :
    flow.Passes dialect outer { isLoop } statements
        (Frame.after (visibleLabels outer) { isLoop } statements) ∧
      (isRepeat = true → dialect.has .labels = true →
        (Frame.after (visibleLabels outer) { isLoop } statements).crossed = false) := by
  obtain ⟨horderly, -, hwellFormed⟩ := h
  have hadmits (hlabels : dialect.has .labels = true) :
      Frame.AdmitsAll (visibleLabels outer) { isLoop } statements ∧ (isRepeat = true →
        (Frame.after (visibleLabels outer) { isLoop } statements).crossed = false) :=
    orderly_iff.mp (horderly hlabels)
  exact ⟨⟨rfl, fun hlabels => (hadmits hlabels).1, hwellFormed⟩,
    fun hrepeat hlabels => (hadmits hlabels).2 hrepeat⟩

end Flow.Passes

namespace Grammar

open Rule

/-- Nested rules that give what is written so. -/
structure Nested.Complete (dialect : Dialect) (nested : Nested) (inner : Writing) : Prop where
  advances : nested.Advances
  absent : ∀ {p : Point}, inner.absent p → p.token.startsExpression = false
  isMethod : ∀ {level : Nat} {expression : Expression} {p q : Point},
    inner.expression level expression p q → expression.isMethod = false
  statement : ∀ {flow : Flow} {frame behind : Frame} {outer : List Frame} {p q : Point}
    {v : Option Statement}, inner.statement v p q → flow.Passes dialect outer frame v.toList behind →
      nested.statement.Gives dialect (flow.within (frame :: outer)) p (Same v)
        (flow.within (behind :: outer)) q
  expression : ∀ {level : Nat} {flow : Flow} {p q : Point} {v : Option Expression},
    ExpressionRead dialect inner level flow p v q →
      (nested.expression level).Gives dialect flow p (Same v) flow q

section

variable {nested : Nested} {inner : Writing} (hn : nested.Complete dialect inner)

include hn

/-- One part of a block is read as it is written. -/
theorem blockTurn_gives {v : Turn (Option Statement)}
    (h : BlockTurnRead dialect inner flow outer v (frame, p) (behind, q)) :
    (blockTurn nested).Gives dialect (flow.within (frame :: outer)) p (Same v)
      (flow.within (behind :: outer)) q := by
  have hword {word : ReservedWord} (hfaces : p.Faces word) (other : ReservedWord) :
      p.token.isWord other = (word == other) := by
    rw [Token.isWord, show p.token.value = _ from hfaces]
    cases word <;> cases other <;> rfl
  refine .current ?_
  cases h with
  | stop hends => exact .yes hends (.give rfl)
  | last hpasses hreturn hwritten =>
    refine .no ?_ (.has ((hn.statement hwritten hpasses).bind fun v' hv' => ?_))
    · rw [endsBlock, show p.token.value = _ from hreturn]
      decide
    · refine .yes ?_ (.no ?_ (.give (same_last.mpr hv')))
      · rw [hword hreturn]
        rfl
      · rw [hword hreturn]
        decide
  | lastBreak hpasses hbreak hrelaxed hwritten =>
    refine .no ?_ (.has ((hn.statement hwritten hpasses).bind fun v' hv' => ?_))
    · rw [endsBlock, show p.token.value = _ from hbreak]
      decide
    · refine .yes ?_ (.yes ?_ (.skip (.give (same_last.mpr hv'))))
      · rw [hword hbreak, hword hbreak, hrelaxed]
        rfl
      · rw [hword hbreak]
        rfl
  | more hpasses hends hreturn hbreak hwritten =>
    refine .no (ne_true_of_eq_false hends) (.has ((hn.statement hwritten hpasses).bind fun v' hv' => ?_))
    refine .no (fun hlast => ?_) (.skip (.give (same_more.mpr hv')))
    simp only [Bool.or_eq_true, Bool.and_eq_true, Bool.not_eq_true'] at hlast
    rcases hlast with hlast | ⟨hlast, hrelaxed⟩
    · exact hreturn (beq_iff_eq.mp hlast)
    · exact hbreak ⟨beq_iff_eq.mp hlast, hrelaxed⟩

omit hn in
/-- The statements of a block are read in turns. -/
theorem turned_of_statements (h : Statements dialect inner statements p q)
    (hpasses : flow.Passes dialect outer frame statements behind) :
    ∃ items, items.filterMap id = statements ∧
      Turned (BlockTurnRead dialect inner flow outer) items (frame, p) (behind, q) := by
  induction h generalizing frame with
  | nil hends =>
    obtain ⟨rfl, -, -⟩ := hpasses
    exact ⟨[], rfl, .stop (.stop hends)⟩
  | last hreturn hwritten =>
    exact ⟨[_], by rw [filterMap_id_cons]; exact List.append_nil _,
      .last (.last hpasses hreturn hwritten)⟩
  | lastBreak hbreak hrelaxed hwritten =>
    exact ⟨[_], by rw [filterMap_id_cons]; exact List.append_nil _,
      .last (.lastBreak hpasses hbreak hrelaxed hwritten)⟩
  | more hends hreturn hbreak hwritten _ ih =>
    obtain ⟨middle, hfirst, hrest⟩ := hpasses.split
    obtain ⟨items, rfl, hitems⟩ := ih hrest
    exact ⟨_ :: items, filterMap_id_cons _ _, .more (.more hfirst hends hreturn hbreak hwritten) hitems⟩

/-- The statements of a block are read as they are written, if they may stand there. -/
theorem statements_gives (h : Statements dialect inner statements p q)
    (hpasses : flow.Passes dialect outer frame statements behind) :
    (Grammar.statements nested).Gives dialect (flow.within (frame :: outer)) p (Same statements)
      (flow.within (behind :: outer)) q := by
  obtain ⟨items, rfl, hitems⟩ := turned_of_statements h hpasses
  exact (Gives.repeated (fun frame => flow.within (frame :: outer)) (blockTurn_advances hn.advances)
    (fun _ _ _ _ _ hturn => blockTurn_gives hn hturn) hitems).bind
      fun items' hsame => .give hsame.filterMap_id

/-- The statements of a block inside another. What jumps out of it waits in the other. -/
theorem Rule.Gives.innerBlock {β : Type} {isLoop : Bool} {f : List Statement → Rule β} {kind : β → Prop}
    {scope : Option (List Binding)} (h : Statements dialect inner statements p m)
    (hwellFormed : (Block.mk statements scope).WellFormed
      ((flow.within ({ isLoop } :: frame :: outer)).situation dialect) false)
    (hf : ∀ statements', Same statements statements' → (f statements').Gives dialect (flow.within
      (frame.jump (visibleLabels outer) (Block.mk statements scope).escaping :: outer)) m kind flow' q) :
    (Rule.openBlock isLoop >>= fun _ => Grammar.statements nested >>= fun statements =>
      Rule.closeBlock >>= fun _ => f statements).Gives dialect (flow.within (frame :: outer)) p kind
        flow' q := by
  have hgives : (Grammar.statements nested).Gives dialect
      (flow.within ({ isLoop } :: frame :: outer)) p (Same statements)
      (flow.within (_ :: frame :: outer)) m := statements_gives hn h (Flow.Passes.of_wellFormed hwellFormed).1
  have hnames := fun name => @Frame.mem_pending_after name (visibleLabels (frame :: outer)) isLoop
    (.mk statements scope)
  exact .openBlock (hgives.bind fun statements' hsame => .closeBlock (fun _ => hnames)
    (hf statements' hsame))

/-- A block with a scope of its own is read as it is written, if it is well-formed where it stands. -/
theorem scopedBlock_gives {isLoop : Bool} {body : Block} (h : Statements dialect inner body.statements p q)
    (hwellFormed : body.WellFormed
      ((flow.within ({ isLoop } :: frame :: outer)).situation dialect) false) :
    (scopedBlock nested isLoop).Gives dialect (flow.within (frame :: outer)) p (Same body)
      (flow.within (frame.jump (visibleLabels outer) body.escaping :: outer)) q := by
  obtain ⟨statements, scope⟩ := body
  exact .quiet quiet_openScope fun _ _ => .innerBlock hn h hwellFormed fun _ hsame =>
    .quiet quiet_closeScope fun _ _ => .give (same_block hsame)

end

/-! ### Functions -/

/-- Names that differ in annotations only make parameters that do. -/
theorem same_parameter {name name' : Declarator} (h : Same name name') :
    Same name.parameter name'.parameter := by
  cases name <;> cases name' <;> first
    | exact congrArg Parameter.plain (same_plain.mp h)
    | exact congrArg Parameter.typed (same_typed.mp h)
    | cases h

/-- Where a name stands, the token is one. -/
theorem kind_of_names {name : Identifier} (h : p.Names name) : p.token.kind = .identifier :=
  Token.kind_of_name h

/-- What is declared has a name where it begins. -/
theorem names_of_declared {name : Declarator} (h : Declared dialect name p q) :
    p.Names name.identifier := by
  cases h with
  | plain hname => exact hname
  | typed _ hname => exact hname

/-- One parameter is read as it is written. -/
theorem parameterTurn_gives {v : Turn Parameter} {dots dots' : Bool}
    (h : ParameterTurnRead dialect v (dots, p) (dots', q)) :
    parameterTurn.Gives dialect { flow with allowsVararg := dots } p (Same v)
      { flow with allowsVararg := dots' } q := by
  refine .current ?_
  cases h with
  | last hname hparen =>
    rw [kind_of_names (names_of_declared hname)]
    refine (declarator_gives hname).bind fun name' hname' => .quiet (quiet_declaredParameter name') ?_
    rintro _ ⟨name'', hsame, rfl⟩
    exact .unlessConsume (hparen.not_faces (by decide)) (.expect hparen (.give
      (same_last.mpr (same_parameter (hname'.trans hsame)))))
  | dots hdots hvalue hparen =>
    have htoken : p.token.value = .vararg := hdots.value_eq (congrArg some hvalue.symm)
    rw [Token.kind, htoken]
    exact .allowVararg (.literal hdots fun literal' hliteral' => .expect hparen (.give
      (same_last.mpr (congrArg Parameter.vararg hliteral'))))
  | more hname hcomma =>
    rw [kind_of_names (names_of_declared hname)]
    refine (declarator_gives hname).bind fun name' hname' => .quiet (quiet_declaredParameter name') ?_
    rintro _ ⟨name'', hsame, rfl⟩
    exact .ifConsume hcomma (.give (same_more.mpr (same_parameter (hname'.trans hsame))))

/-- Parameters that are written in a row are read turn by turn, up to the dots that end them. -/
theorem turned_of_parameters {parameters : List Parameter} {dots : Bool}
    (h : ParameterRow dialect parameters p q) : Turned (ParameterTurnRead dialect) parameters (dots, p)
      (dots || parameters.any Parameter.isVararg, q) := by
  induction h with
  | last hname hparen => simpa using Turned.last (.last hname hparen)
  | dots hdots hvalue hparen =>
    simpa [Parameter.isVararg] using Turned.last (.dots hdots hvalue hparen)
  | more hname hcomma _ ih => simpa using Turned.more (.more hname hcomma) ih

/-- Parameters with their parentheses. -/
theorem parameters_gives {parameters : List Parameter} (h : Parameters dialect parameters p q)
    (hflow : flow.allowsVararg = false) :
    Grammar.parameters.Gives dialect flow p (Same parameters)
      { flow with allowsVararg := parameters.any Parameter.isVararg } q := by
  cases h with
  | none hleft hright =>
    have hsame : flow = { flow with allowsVararg := false } := by rw [← hflow]
    exact .expect hleft (.ifConsume hright (hsame ▸ .give rfl))
  | some hleft hrow =>
    have hturns : (Rule.repeated parameterTurn).Gives dialect { flow with allowsVararg := false } p.step
        (Same parameters) { flow with allowsVararg := false || parameters.any Parameter.isVararg } q :=
      Gives.repeated (fun dots => { flow with allowsVararg := dots }) Pairing.parameterTurn_advances
        (fun _ _ _ _ _ => parameterTurn_gives) (turned_of_parameters hrow)
    have hsame : flow = { flow with allowsVararg := false } := by rw [← hflow]
    rw [← hsame, Bool.false_or] at hturns
    refine .expect hleft (.unlessConsume ?_ hturns)
    cases hrow with
    | last hname => exact (names_of_declared hname).not_faces
    | dots hdots => exact hdots.not_faces
    | more hname => exact (names_of_declared hname).not_faces

/-- A rule that only keeps books and is only sometimes there, before another. -/
theorem Rule.Gives.branch {β : Type} {c : Bool} {kind : Unit → Prop} {kind' : β → Prop} {a : Rule Unit}
    {b : Rule β} (ha : a.Quiet kind) (hb : b.Gives dialect flow p kind' flow' q) :
    (if c = true then a >>= fun _ => b else b).Gives dialect flow p kind' flow' q := by
  cases c
  · exact hb
  · exact .quiet ha fun _ _ => hb

/-- No jump waits at the end of a block if none leaves it. -/
theorem pending_eq_nil {labels : List String} {isLoop : Bool} {body : Block} (h : body.escaping = []) :
    (Frame.after labels { isLoop } body.statements).pending = [] := by
  refine List.eq_nil_iff_forall_not_mem.mpr fun ⟨name, count⟩ hmem => ?_
  have hescaping := (Frame.mem_pending_after.mp ⟨count, hmem⟩).1
  rw [h] at hescaping
  cases hescaping

/-- A function behind its name. -/
theorem functionBody_gives {nested : Nested} {inner : Writing} (hn : nested.Complete dialect inner)
    {name name' : Option Expression} {isLocal : Bool} {parameters : List Parameter} {body : Block}
    {placement : Placement} (isMethod : Bool) (start : Place) (hname : Same name name')
    (h : FunctionBody dialect inner (.mk name isLocal parameters body placement) p q)
    (hwellFormed : (Function.mk name isLocal parameters body placement).WellFormed
      (flow.surroundings dialect)) :
    (functionBody nested name' isLocal isMethod start).Gives dialect flow p
      (Same (Function.mk name isLocal parameters body placement)) flow q := by
  obtain ⟨statements, scope⟩ := body
  obtain ⟨hparameters, hstatements, hend⟩ := h
  obtain ⟨-, hbody, hescaping⟩ := hwellFormed
  refine .quiet quiet_openScope fun _ _ => .branch (quiet_declareName "self") ?_
  refine .read fun total s hs => .setJumps hs.jumps.fresh (.openBlock ?_)
  refine (parameters_gives hparameters rfl).bind fun parameters' hparameters' => ?_
  have hsituation : (Block.mk statements scope).WellFormed ((Flow.within
      { flow with allowsVararg := parameters.any Parameter.isVararg } [{ isLoop := false }]).situation
        dialect) false := hbody
  refine (statements_gives hn hstatements (Flow.Passes.of_wellFormed hsituation).1).bind
    fun statements' hstatements' => ?_
  refine .closeLast (fun hlabels hchecks => pending_eq_nil (hescaping hlabels hchecks))
    (.setJumps hs.jumps (.expect hend (.quiet quiet_closeScope fun scope _ =>
      .quiet (quiet_placed start) fun _ _ => .give ?_)))
  exact same_function hname hparameters' (same_block hstatements')

/-- The members of a path are read one by one. -/
theorem steps_of_path {name : Expression} (h : NamePath name p q) :
    ∃ first, p.Names first ∧
      Relation.ReflTransGen NameStepRead (.identifier first, p.step) (name, q) := by
  induction h with
  | name hname => exact ⟨_, hname, .refl⟩
  | member _ hdot hname ih =>
    obtain ⟨first, hfirst, hsteps⟩ := ih
    exact ⟨first, hfirst, hsteps.tail (.mk hdot hname)⟩

/-- The name of a function is read as it is written, if its parameters follow. -/
theorem functionName_gives {name : Expression} (h : FunctionName name p q)
    (hparen : q.Faces Symbol.leftParen) :
    functionName.Gives dialect flow p (fun v => Same name v.1) flow q := by
  have hstep (start : Place) (base base' : Expression) (p : Point) (v : Option Expression) (q : Point)
      (hbase : Same base base') (h : StepRead NameStepRead (fun p => ¬ p.Faces Symbol.dot) base p v q) :
      (nameStep start base').Gives dialect flow p (Same v) flow q := by
    cases v with
    | none =>
      obtain ⟨rfl, hdot⟩ := h
      exact .unlessConsume hdot (.give rfl)
    | some v =>
      obtain ⟨hdot, hname⟩ := h
      refine .ifConsume hdot (.identifier hname fun name' hname' =>
        .quiet (quiet_placedExpression start _) ?_)
      rintro _ ⟨placement, rfl⟩
      exact .give (same_some.mpr (same_member hbase .dot hname'))
  refine .quiet quiet_mark fun start _ => ?_
  cases h with
  | function h =>
    obtain ⟨first, hfirst, hsteps⟩ := steps_of_path h
    refine .resolved hfirst fun first' hfirst' => (Gives.iterated (Pairing.nameStep_advances start)
      (hstep start) (same_nameExpression hfirst') hsteps (hparen.not_faces (by decide))).bind
        fun name' hname' => ?_
    exact .unlessConsume (hparen.not_faces (by decide)) (.give hname')
  | method h hcolon hname =>
    obtain ⟨first, hfirst, hsteps⟩ := steps_of_path h
    refine .resolved hfirst fun first' hfirst' => (Gives.iterated (Pairing.nameStep_advances start)
      (hstep start) (same_nameExpression hfirst') hsteps (hcolon.not_faces (by decide))).bind
        fun base' hbase' => .ifConsume hcolon (.identifier hname fun name' hname' =>
          .quiet (quiet_placedExpression start _) ?_)
    rintro _ ⟨placement, rfl⟩
    exact .give (same_member hbase' .colon hname')

end Grammar

end LuaSyntax
