import LuaSyntax.Grammar.Leaf
import LuaSyntax.Proofs.Grammar.Grounded.Rule
import LuaSyntax.Grammar.Block

/-!
# Books, leaves and blocks on a ground

What is declared in a scope was made of tokens, and so was what a jump is blamed on. A name or a literal
is one token. What is between the rules for what is nested builds on a ground if those rules do.
-/

namespace LuaSyntax

variable {g : Ground}

/-! ## Scopes -/

namespace Scope

variable {scope : Scope} {identifier : Identifier}

/-- An empty frame holds nothing. -/
theorem Grounded.push (h : scope.Grounded g) : scope.push.Grounded g := by
  rw [Scope.push]
  split
  · exact ⟨List.forall_mem_cons.mpr ⟨List.forall_mem_nil _, h.frames⟩, h.unresolved⟩
  · exact h

/-- The names of a frame that is closed are known, and so are those of the others. -/
theorem Grounded.pop (h : scope.Grounded g) :
    (∀ bindings ∈ scope.pop.1, ∀ binding ∈ bindings, binding.Meets g.demands) ∧
      scope.pop.2.Grounded g := by
  rw [Scope.pop]
  split
  · split
    · exact ⟨nofun, h⟩
    · next frame frames hframes =>
      have hall := h.frames
      rw [hframes] at hall
      obtain ⟨hframe, hothers⟩ := List.forall_mem_cons.mp hall
      exact ⟨fun | _, rfl => hframe, hothers, h.unresolved⟩
  · exact ⟨nofun, h⟩

/-- A name that is bound has to be known. -/
theorem Grounded.bind (h : scope.Grounded g) {binding : Binding} (hbinding : binding.Meets g.demands) :
    (scope.bind binding).Grounded g := by
  rw [Scope.bind]
  split
  · exact h
  · next frame frames hframes =>
    have hall := h.frames
    rw [hframes] at hall
    obtain ⟨hframe, hothers⟩ := List.forall_mem_cons.mp hall
    have hadded := List.forall_mem_append.mpr ⟨hframe, List.forall_mem_singleton.mpr hbinding⟩
    exact ⟨List.forall_mem_cons.mpr ⟨hadded, hothers⟩, h.unresolved⟩

/-- A name that is declared has to be known, and it is still known as a local. -/
theorem Grounded.declare (h : scope.Grounded g) (hidentifier : g.demands.identifier identifier) :
    g.demands.identifier (scope.declare identifier).1 ∧ (scope.declare identifier).2.Grounded g := by
  rw [Scope.declare]
  split
  · have hlocal := g.renamed true hidentifier
    exact ⟨hlocal, h.bind fun _ heq => Option.some.inj heq ▸ hlocal⟩
  · exact ⟨hidentifier, h⟩

/-- A name that stands nowhere may be declared. -/
theorem Grounded.declareName (h : scope.Grounded g) (name : String) :
    (scope.declareName name).Grounded g := by
  rw [Scope.declareName]
  split
  · exact h.bind nofun
  · exact h

/-- A name that is resolved has to be known, local or not, and is remembered if it is not. -/
theorem Grounded.resolve (h : scope.Grounded g) (hidentifier : g.demands.identifier identifier) :
    g.demands.identifier (scope.resolve identifier).2.1 ∧ (scope.resolve identifier).2.2.Grounded g := by
  rw [Scope.resolve]
  split
  · split
    · exact ⟨g.renamed true hidentifier, h⟩
    · split
      · exact ⟨hidentifier, h⟩
      · exact ⟨hidentifier, h.frames,
          List.forall_mem_append.mpr ⟨h.unresolved, List.forall_mem_singleton.mpr hidentifier⟩⟩
  · exact ⟨hidentifier, h⟩

/-- The names without a declaration are known. -/
theorem Grounded.takeUnresolved (h : scope.Grounded g) :
    (∀ names ∈ scope.takeUnresolved.1, ∀ name ∈ names, g.demands.identifier name) ∧
      scope.takeUnresolved.2.Grounded g := by
  rw [Scope.takeUnresolved]
  split
  · exact ⟨fun | _, rfl => h.unresolved, h.frames, List.forall_mem_nil _⟩
  · exact ⟨nofun, h⟩

end Scope

/-! ## Jumps -/

namespace Jumps

variable {jumps : Jumps} {token : Token}

/-- Whether a check of jumps gives something grounded, or blames a known token. -/
structure Checks {α : Type} (g : Ground) (good : α → Prop) (result : Except JumpFault α) : Prop where
  value : ∀ v, result = .ok v → good v
  fault : ∀ fault, result = .error fault → g.token fault.token

/-- A result without a fault passes if its value does. -/
theorem Checks.ok {α : Type} {good : α → Prop} {v : α} (h : good v) : Checks g good (.ok v) where
  value _ heq := Except.ok.inj heq ▸ h
  fault _ heq := by cases heq

/-- A fault passes if the token that it blames is known. -/
theorem Checks.error {α : Type} {good : α → Prop} {fault : JumpFault} (h : g.token fault.token) :
    Checks g good (.error fault) where
  value _ heq := by cases heq
  fault _ heq := Except.error.inj heq ▸ h

/-- An empty block holds no gotos. -/
theorem Grounded.push (h : jumps.Grounded g) (isLoop : Bool) : (jumps.push isLoop).Grounded g :=
  ⟨h.pending, List.forall_mem_cons.mpr ⟨List.forall_mem_nil _, h.deferred⟩⟩

/-- A `goto` stays on its token when it leaves a block. -/
theorem token_leave (goto : PendingGoto) (closing : Nat) : (goto.leave closing).token = goto.token := by
  rw [PendingGoto.leave]
  split <;> rfl

/-- The gotos of a block that closes are known, those that it hands out and those that it blames. -/
theorem Grounded.pop (h : jumps.Grounded g) : Checks g (Grounded g) jumps.pop := by
  have hpending : ∀ goto ∈ jumps.pending.map (·.leave jumps.depth), g.token goto.token := by
    refine List.forall_mem_map.mpr fun goto hmem => ?_
    rw [token_leave]
    exact h.pending goto hmem
  have hblocks : ∀ block ∈ jumps.blocks.drop 1, ∀ goto ∈ block.deferred, g.token goto.token :=
    fun block hmem => h.deferred block (List.mem_of_mem_drop hmem)
  rw [Jumps.pop]
  split
  · next goto hfind =>
    split
    · exact .error (hpending goto (List.mem_of_find?_eq_some hfind))
    · exact .ok ⟨fun goto hmem => hpending goto (List.mem_filter.mp hmem).1, hblocks⟩
  · exact .ok ⟨hpending, hblocks⟩

/-- A `goto` that is added has to stand on a known token. -/
theorem Grounded.addGoto (h : jumps.Grounded g) (target : String) (htoken : g.token token) :
    (jumps.addGoto target token).Grounded g := by
  rw [Jumps.addGoto]
  split
  · exact ⟨List.forall_mem_append.mpr ⟨h.pending, List.forall_mem_singleton.mpr htoken⟩, h.deferred⟩
  · exact h

/-- A label that is added takes gotos away, or it is blamed itself. -/
theorem Grounded.addLabel (h : jumps.Grounded g) (name : String) (htoken : g.token token) :
    Checks g (Grounded g) (jumps.addLabel name token) := by
  rw [Jumps.addLabel]
  split
  · next block outer hlabels hblocks =>
    split
    · exact .error htoken
    · have hall := h.deferred
      rw [hblocks] at hall
      obtain ⟨hblock, hothers⟩ := List.forall_mem_cons.mp hall
      refine .ok ⟨fun goto hmem => h.pending goto (List.mem_filter.mp hmem).1,
        List.forall_mem_cons.mpr ⟨List.forall_mem_append.mpr ⟨hblock, fun goto hmem => ?_⟩, hothers⟩⟩
      exact h.pending goto (List.mem_filter.mp hmem).1
  · exact .ok h

/-- A local moves gotos, and adds none. -/
theorem Grounded.addLocal (h : jumps.Grounded g) (name : String) : (jumps.addLocal name).Grounded g := by
  rw [Jumps.addLocal]
  split
  · next block outer hlabels hblocks =>
    have hall := h.deferred
    rw [hblocks] at hall
    obtain ⟨hblock, hothers⟩ := List.forall_mem_cons.mp hall
    exact ⟨h.pending, List.forall_mem_cons.mpr ⟨hblock, hothers⟩⟩
  · exact h

/-- A `goto` that jumps into the scope of a local is blamed on its own token. -/
theorem Grounded.checkDeferred (h : jumps.Grounded g) :
    Checks g (fun _ => True) jumps.checkDeferred := by
  rw [Jumps.checkDeferred]
  split
  · exact .ok trivial
  · next block outer hblocks =>
    split
    · exact .ok trivial
    · next goto others hdeferred =>
      have hall := h.deferred
      rw [hblocks] at hall
      have hblock := (List.forall_mem_cons.mp hall).1
      rw [hdeferred] at hblock
      exact .error (hblock goto List.mem_cons_self)

end Jumps

namespace Grammar

open Rule

variable {base : State → Prop}

/-! ## Rules that keep books -/

/-- A scope is opened on any ground. -/
theorem openScope_builds : openScope.Builds g base fun _ => True := by
  refine .read fun s _ _ => .ite (fun _ => ?_) fun _ => .give trivial
  have hpush : (modify fun s => { s with scope := s.scope.push }).Builds g base fun _ => True :=
    .put fun s hs => ⟨s.scope.push, s.log, s.jumps, rfl, hs.put _ hs.scope.push hs.jumps⟩
  exact hpush.bind fun _ _ => .tell _

/-- A scope that was found is put in place. -/
theorem setScope_builds {scope : Scope} (h : scope.Grounded g) :
    (modify fun s => { s with scope }).Builds g base fun _ => True :=
  .put fun s hs => ⟨scope, s.log, s.jumps, rfl, hs.put _ h hs.jumps⟩

/-- The names that a closed scope gives are known. -/
theorem closeScope_builds : closeScope.Builds g base fun scope =>
    ∀ bindings ∈ scope, ∀ binding ∈ bindings, binding.Meets g.demands := by
  refine .read fun s hs _ => ?_
  obtain ⟨hbindings, hscope⟩ := hs.scope.pop
  exact (setScope_builds hscope).bind fun _ _ => Builds.branch (.tell _) (.give hbindings)

/-- A known name is declared and still known. -/
theorem declare_builds {identifier : Identifier} (h : g.demands.identifier identifier) :
    (declare identifier).Builds g base g.demands.identifier := by
  refine .read fun s hs _ => ?_
  obtain ⟨hdeclared, hscope⟩ := hs.scope.declare h
  exact (setScope_builds hscope).bind fun _ _ => Builds.branch (.tell _) (.give hdeclared)

/-- Known names are declared, one after another. -/
theorem declareAll_builds {identifiers : List Identifier}
    (h : ∀ identifier ∈ identifiers, g.demands.identifier identifier) :
    (declareAll identifiers).Builds g base fun declared =>
      ∀ identifier ∈ declared, g.demands.identifier identifier := by
  induction identifiers with
  | nil => exact .give (List.forall_mem_nil _)
  | cons identifier rest ih =>
    obtain ⟨hfirst, hrest⟩ := List.forall_mem_cons.mp h
    exact (declare_builds hfirst).bind fun _ hdeclared => (ih hrest).bind fun _ hothers =>
      .give (List.forall_mem_cons.mpr ⟨hdeclared, hothers⟩)

theorem declareName_builds (name : String) : (declareName name).Builds g base fun _ => True := by
  have hchange : (modify fun s => { s with scope := s.scope.declareName name }).Builds g base
      fun _ => True :=
    .put fun s hs => ⟨s.scope.declareName name, s.log, s.jumps, rfl,
      hs.put _ (hs.scope.declareName name) hs.jumps⟩
  exact hchange.bind fun _ _ => .read fun _ _ _ => .ite (fun _ => .tell _) fun _ => .give trivial

/-- A result that passes gives a good value or a known error. -/
theorem checked_builds {α : Type} {good : α → Prop} {result : Except JumpFault α}
    (h : Jumps.Checks g good result) : (checked result).Builds g base good := by
  cases result with
  | ok v => exact .give (h.value v rfl)
  | error fault => exact .blame (h.fault fault rfl) _ _

/-- Books of jumps may be set if all tokens in them are known. -/
theorem setJumps_builds {jumps : Jumps} (h : jumps.Grounded g) :
    (setJumps jumps).Builds g base fun _ => True :=
  .put fun s hs => ⟨s.scope, s.log, jumps, rfl, hs.put _ hs.scope h⟩

theorem openBlock_builds (isLoop : Bool) : (openBlock isLoop).Builds g base fun _ => True :=
  .read fun _ hs _ => setJumps_builds (hs.jumps.push isLoop)

theorem closeBlock_builds : closeBlock.Builds g base fun _ => True :=
  .read fun _ hs _ => (checked_builds hs.jumps.pop).bind fun _ hjumps => setJumps_builds hjumps

theorem goOn_builds : goOn.Builds g base fun _ => True :=
  .read fun _ hs _ => checked_builds hs.jumps.checkDeferred

/-- A local may be recorded on any ground. -/
theorem recordLocal_builds (name : String) : (recordLocal name).Builds g base fun _ => True :=
  .read fun _ hs _ => setJumps_builds (hs.jumps.addLocal name)

/-! ## Names and literals -/

/-- The token that a parse stands at is taken, and what is made of it is told of. -/
theorem leaf_builds {α : Type} {good : α → Prop} {make : Placement → α} {node : α → Node}
    {pre : State → Prop} [Closed pre] {context : Context} {s : State} (hof : context.Of g)
    (hs : s.Grounded g) (hpre : pre s)
    (h : good (make (.between g.options g.source s.token.start s.token.stop))) :
    Fares g good pre ((advance >>= fun _ => placed s.token.start >>= fun placement =>
      complete (node (make placement)) >>= fun _ => pure (make placement) : Rule α) context s) := by
  have hadvance := Builds.advance (g := g) pre (fun _ h => h) context s hof hs hpre
  match hrun : advance context s with
  | (.error error, t) =>
    rw [hrun] at hadvance
    rw [bind_of_error hrun]
    exact ⟨nofun, fun _ heq => Except.error.inj heq ▸ hadvance.error error rfl⟩
  | (.ok (), t) =>
    rw [hrun] at hadvance
    obtain ⟨-, ht, hpre⟩ := hadvance.value () rfl
    rw [bind_of_ok hrun]
    obtain ⟨_, _, -, rfl⟩ := advance_eq_ok.mp hrun
    have hplacement : Placement.between context.options context.source s.token.start
        { s.token.stop with offset := max s.token.stop.offset s.token.start.offset } =
        .between g.options g.source s.token.start s.token.stop := by
      rw [hof.options, hof.source, Nat.max_eq_left (g.ordered hs.token)]
    refine ⟨fun v heq => ?_, nofun⟩
    obtain rfl := Except.ok.inj heq
    refine ⟨?_, ht.put _ ht.scope ht.jumps, Closed.put hpre _ _ _⟩
    rw [← hplacement] at h
    exact h

/-- A name is a known token. -/
theorem identifier_builds : identifier.Builds g base g.demands.identifier := by
  intro pre _ hbase context s hof hs hpre
  cases hname : s.token.name? with
  | none =>
    rw [identifier_of_none hname]
    exact Builds.demand _ pre hbase context s hof hs hpre
  | some name =>
    rw [identifier_of_name hname]
    exact leaf_builds hof hs hpre (g.identifier hs.token hname)

/-- A literal is a known token. -/
theorem literal_builds : literal.Builds g base g.demands.literal := by
  intro pre _ hbase context s hof hs hpre
  cases hvalue : Grammar.literalValue? s.token.value with
  | none =>
    rw [literal_of_none hvalue]
    exact Builds.refuse pre hbase context s hof hs hpre
  | some value =>
    rw [literal_of_value hvalue]
    exact leaf_builds hof hs hpre (g.literal hs.token hvalue)

/-- A name that is resolved is still known. -/
theorem resolved_builds : resolved.Builds g base g.demands.identifier := by
  refine identifier_builds.bind fun name hname => .read fun s hs _ => ?_
  obtain ⟨hresolved, hscope⟩ := hs.scope.resolve hname
  exact (setScope_builds hscope).bind fun _ _ => .give hresolved

/-- A declared name is known, and so is its type. -/
theorem declarator_builds : declarator.Builds g base fun name => name.Meets g.demands := by
  refine .mark fun start => identifier_builds.take takes_identifier fun name hname => ?_
  refine .has fun typed htyped => ?_
  cases typed with
  | false => exact .at? (fun _ => .give hname) (.give hname)
  | true =>
    refine .at? (fun _ => ?_) (.give hname)
    refine Builds.advance.bind fun _ _ => identifier_builds.bind fun type htype => ?_
    refine Builds.placed.bind fun placement hplacement => ?_
    exact (Builds.complete _).bind fun _ _ => .give ⟨htyped rfl, hname, htype, hplacement⟩

/-- A member is known if its base and its name are. -/
theorem member_builds {b : Expression} (hbase : b.Meets g.demands) (indexer : Indexer)
    {name : Identifier} (hname : g.demands.identifier name) {start : Place} :
    (member b indexer name start).Builds g (State.Begun g start) fun v => v.Meets g.demands :=
  Builds.placed.bind fun _ hplacement => .completed ⟨hbase, hname, hplacement⟩

/-! ## Blocks and functions -/

variable {start : Place} {nested : Nested}

/-- Rules for what is nested that build on a ground. -/
structure Nested.Builds (nested : Nested) (g : Ground) : Prop where
  statement : ∀ base, nested.statement.Builds g base fun v => ∀ statement ∈ v, statement.Meets g.demands
  expression : ∀ base level, (nested.expression level).Builds g base
    fun v => ∀ expression ∈ v, expression.Meets g.demands
  /-- Where there is an expression, a token is taken. -/
  advances : ∀ level, (nested.expression level).ItemAdvances

/-- A block is made of its statements and the names of its scope. -/
theorem meets_block {statements : List Statement} {scope : Option (List Binding)}
    (hstatements : ∀ statement ∈ statements, statement.Meets g.demands)
    (hscope : ∀ bindings ∈ scope, ∀ binding ∈ bindings, binding.Meets g.demands) :
    (Block.mk statements scope).Meets g.demands :=
  ⟨statementsMeet_iff.mpr hstatements, hscope⟩

section

variable (hn : nested.Builds g)

include hn

/-- A part of a block is known, if it is a statement. -/
theorem blockTurn_builds : (blockTurn nested).Builds g base
    fun v => ∀ item ∈ v.items, ∀ statement ∈ item, statement.Meets g.demands := by
  refine .current fun token _ => .ite (fun _ => .give (List.forall_mem_nil _)) fun _ => ?_
  refine .has fun relaxed _ => (hn.statement base).bind fun statement hstatement => ?_
  refine .ite (fun _ => .ite (fun _ => ?_) fun _ => ?_) fun _ => ?_
  · exact .consume (.give (List.forall_mem_singleton.mpr hstatement))
      (.give (List.forall_mem_singleton.mpr hstatement))
  · exact .give (List.forall_mem_singleton.mpr hstatement)
  · exact .consume (.give (List.forall_mem_singleton.mpr hstatement))
      (.give (List.forall_mem_singleton.mpr hstatement))

/-- The statements of a block are known. -/
theorem statements_builds : (statements nested).Builds g base
    fun v => ∀ statement ∈ v, statement.Meets g.demands := by
  refine (Builds.repeated (blockTurn_builds hn)).bind fun items hitems => .give ?_
  intro statement hmem
  obtain ⟨item, hitem, heq⟩ := List.mem_filterMap.mp hmem
  exact hitems item hitem statement heq

/-- A block with a scope of its own is known. -/
theorem scopedBlock_builds (isLoop : Bool) : (scopedBlock nested isLoop).Builds g base
    fun body => body.Meets g.demands := by
  refine openScope_builds.bind fun _ _ => (openBlock_builds isLoop).bind fun _ _ => ?_
  refine (statements_builds hn).bind fun body hbody => closeBlock_builds.bind fun _ _ => ?_
  exact closeScope_builds.bind fun scope hscope => .give (meets_block hbody hscope)

end

/-! ### Functions -/

/-- A parameter is known if its name is. -/
theorem declaredParameter_builds {name : Declarator} (hname : name.Meets g.demands) :
    (declaredParameter name).Builds g base fun parameter => parameter.Meets g.demands := by
  cases name with
  | plain identifier => exact (declare_builds hname).bind fun _ hdeclared => .give hdeclared
  | typed declared =>
    obtain ⟨hfeature, hidentifier, htype, hplacement⟩ := hname
    exact (declare_builds hidentifier).bind fun _ hdeclared =>
      .give ⟨hfeature, hdeclared, htype, hplacement⟩

/-- A turn of a list of parameters gives a known one. -/
theorem parameterTurn_builds : parameterTurn.Builds g base
    fun v => ∀ parameter ∈ v.items, parameter.Meets g.demands := by
  refine .current fun token _ => ?_
  split
  · refine declarator_builds.bind fun name hname => ?_
    refine (declaredParameter_builds hname).bind fun parameter hparameter => ?_
    refine .consume (.give (List.forall_mem_singleton.mpr hparameter)) ?_
    exact (Builds.expect _).bind fun _ _ => .give (List.forall_mem_singleton.mpr hparameter)
  · have hallow : (modify fun s => { s with jumps := { s.jumps with allowsVararg := true } }).Builds g
        base fun _ => True :=
      .put fun s hs => ⟨s.scope, s.log, { s.jumps with allowsVararg := true }, rfl,
        hs.put _ hs.scope ⟨hs.jumps.pending, hs.jumps.deferred⟩⟩
    refine hallow.bind fun _ _ => literal_builds.bind fun dots hdots => ?_
    exact (Builds.expect _).bind fun _ _ => .give (List.forall_mem_singleton.mpr hdots)
  · exact .demand _

/-- All parameters are known. -/
theorem parameters_builds : parameters.Builds g base
    fun v => ∀ parameter ∈ v, parameter.Meets g.demands :=
  (Builds.expect _).bind fun _ _ => .consume (.give (List.forall_mem_nil _))
    (.repeated parameterTurn_builds)

/-- A function is known if its name is; where it began a token was taken. -/
theorem functionBody_builds (hn : nested.Builds g) {name : Option Expression}
    (hname : expressionMeets? g.demands name) (isLocal isMethod : Bool) :
    (functionBody nested name isLocal isMethod start).Builds g (State.Begun g start)
      fun function => function.Meets g.demands := by
  refine openScope_builds.bind fun _ _ => .branch (declareName_builds _) ?_
  refine .read fun s hs _ => ?_
  refine (setJumps_builds ⟨List.forall_mem_nil _, List.forall_mem_nil _⟩).bind fun _ _ => ?_
  refine (openBlock_builds false).bind fun _ _ => ?_
  refine parameters_builds.bind fun parameters hparameters => ?_
  refine (statements_builds hn).bind fun body hbody => closeBlock_builds.bind fun _ _ => ?_
  refine (setJumps_builds hs.jumps).bind fun _ _ => (Builds.expect _).bind fun _ _ => ?_
  refine closeScope_builds.bind fun scope hscope => Builds.placed.bind fun _ hplacement => ?_
  exact .give ⟨hname, hparameters, meets_block hbody hscope, hplacement⟩

/-- A longer name of a function is known if the shorter one is. -/
theorem nameStep_builds {b : Expression} (hbase : b.Meets g.demands) :
    (nameStep start b).Builds g (State.Begun g start) fun v =>
      ∀ expression ∈ v, expression.Meets g.demands := by
  refine .consume (identifier_builds.bind fun name hname => ?_) (.give nofun)
  exact (member_builds hbase .dot hname).some

/-- The name of a function is known. -/
theorem functionName_builds : functionName.Builds g base fun v => v.1.Meets g.demands := by
  refine .mark fun start => resolved_builds.take takes_resolved fun name hname => ?_
  have hfirst : (Expression.identifier name).Meets g.demands := hname
  refine (Builds.iterated (Expression.Meets g.demands) hfirst fun _ hbase =>
    nameStep_builds hbase).bind fun b hbase => ?_
  refine .consume (identifier_builds.bind fun name hname => ?_) (.give hbase)
  exact (member_builds hbase .colon hname).bind fun _ hmember => .give hmember

end Grammar

end LuaSyntax
