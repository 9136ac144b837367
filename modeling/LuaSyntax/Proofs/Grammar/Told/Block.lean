import LuaSyntax.Proofs.Grammar.Lockstep.Leaf
import LuaSyntax.Proofs.Grammar.Told.Rule
import LuaSyntax.Grammar.Block

/-!
# Books, leaves and blocks that are told of

Rules that keep books tell of scopes or of nothing. A name is told of when it is read, and what is known of
it later makes it another node only in that it is local.

What is between the rules for what is nested tells of what it gives if those rules do. A block is told of
by its statements, between the beginning and the end of its scope.
-/

namespace LuaSyntax

/-! ## Scopes -/

namespace Scope

/-- A use of a name changes nothing of a scope but the names without a declaration. -/
theorem resolve_eq (scope : Scope) (identifier : Identifier) :
    ∃ unresolved, (scope.resolve identifier).2.2 = { scope with unresolved } := by
  rw [resolve]
  split
  · split
    · exact ⟨_, rfl⟩
    · split
      · exact ⟨_, rfl⟩
      · exact ⟨_, rfl⟩
  · exact ⟨_, rfl⟩

/-- Resolving a name does not change how it was read. -/
theorem asRead_resolve (scope : Scope) (identifier : Identifier) :
    (scope.resolve identifier).2.1.asRead = identifier.asRead := by
  rw [resolve]
  split
  · split
    · rfl
    · split <;> rfl
  · rfl

/-- Declaring a name does not change how it was read. -/
theorem asRead_declare (scope : Scope) (identifier : Identifier) :
    (scope.declare identifier).1.asRead = identifier.asRead := by
  rw [declare]
  split <;> rfl

/-- To bind a name does not switch scopes off. -/
theorem enabled_bind (scope : Scope) (binding : Binding) :
    (scope.bind binding).enabled = scope.enabled := by
  rw [bind]
  split <;> rfl

end Scope

/-- Names that read alike are items that do. -/
theorem Identifier.readAlike {identifier other : Identifier} (h : other.asRead = identifier.asRead) :
    ReadAlike [identifier.item] [other.item] :=
  congrArg (fun name => [Item.node (.identifier name)]) h.symm

/-- A declared name reads like what is declared in its place. -/
theorem Declarator.readAlike {declarator : Declarator} {identifier : Identifier}
    (h : identifier.asRead = declarator.identifier.asRead) :
    ReadAlike [declarator.item] [(declarator.withIdentifier identifier).item] := by
  cases declarator with
  | plain name => exact Identifier.readAlike h
  | typed declared =>
    exact congrArg (fun name => [Item.node (.typedIdentifier { declared with name })]) h.symm

namespace Grammar

variable {context : Context} {origin : State} {items : List Item} {begun : Bool}

/-- Names may be told of that were read alike. -/
theorem Underway.renamed {others : List Item} {s : State} (h : Underway context origin begun items s)
    (halike : ReadAlike items others) : Underway context origin begun others s :=
  ⟨h.told.renamed halike, h.taken⟩

namespace Rule

variable {α β : Type}

/-- A rule that tells of nothing. -/
def Silent (r : Rule α) : Prop :=
  ∀ context origin begun items, r.Runs context origin (Underway context origin begun items)
    fun _ => Underway context origin begun items

/-- What tells of nothing may stand before what tells of something. -/
theorem Silent.bind {r : Rule α} {f : α → Rule β} {post : β → State → Prop} (h : r.Silent)
    (hf : ∀ v, (f v).Runs context origin (Underway context origin begun items) post) :
    (r >>= f).Runs context origin (Underway context origin begun items) post :=
  (h context origin begun items).bind hf

/-- A rule that is only sometimes there, before another. -/
theorem Silent.branch {c : Bool} {q : Rule Unit} {r : Rule α} {post : α → State → Prop} (h : q.Silent)
    (hr : r.Runs context origin (Underway context origin begun items) post) :
    (if c = true then q >>= fun _ => r else r).Runs context origin
      (Underway context origin begun items) post :=
  .ite (fun _ => h.bind fun _ => hr) fun _ => hr

/-! ## Rules that keep books -/

/-- To open a scope is told of where scopes are tracked. -/
theorem openScope_tells : openScope.Tells fun _ => [.opened] := by
  rintro context _ origin hs rfl
  have hrun := openScope_eq context origin
  have htold := (Told.nothing origin).opened hrun
  rw [hrun]
  exact ⟨⟨_, htold⟩, fun _ _ => htold⟩

/-- A scope ends, and what was told since it began is inside it. -/
theorem closeScope_runs (before inner : List Item) (h : items = before ++ .opened :: inner) :
    closeScope.Runs context origin (Underway context origin begun items)
      fun scope => Underway context origin begun (before ++ inner ++ [.scope scope]) := by
  subst h
  intro s _ hs
  have hrun := closeScope_eq context s
  have htold := hs.told.closed hrun
  rw [hrun]
  refine ⟨⟨_, htold⟩, fun _ heq => ?_⟩
  obtain rfl := Except.ok.inj heq
  refine ⟨htold, fun hbegun => ?_⟩
  have hlt := hs.taken hbegun
  show origin.taken < State.taken (if _ then _ else _)
  split <;> exact hlt

/-- A state in which a name was declared, and an observer told, if names are resolved. -/
def declared (binding : Binding) (s : State) : State :=
  if s.scope.enabled then
    { s with scope := s.scope.bind binding, log := .declared binding.name :: s.log }
  else s

/-- A name is declared by telling of its binding. -/
theorem declare_eq (identifier : Identifier) (context : Context) (s : State) :
    declare identifier context s = (.ok (s.scope.declare identifier).1,
      declared ⟨identifier.name, some { identifier with isLocal := true }⟩ s) := by
  show ((modify fun t => { t with scope := (s.scope.declare identifier).2 }) >>= fun _ =>
    if (s.scope.declare identifier).2.enabled = true then
      tell (.declared identifier.name) >>= fun _ => pure (s.scope.declare identifier).1
    else pure (s.scope.declare identifier).1 : Rule Identifier) context s = _
  rw [Scope.declare, declared]
  cases henabled : s.scope.enabled with
  | true =>
    rw [if_pos rfl, if_pos rfl, if_pos ((s.scope.enabled_bind _).trans henabled)]
    rfl
  | false =>
    rw [if_neg Bool.false_ne_true, if_neg Bool.false_ne_true, henabled, if_neg Bool.false_ne_true]
    rfl

/-- A bare name is declared by telling of its binding. -/
theorem declareName_eq (name : String) (context : Context) (s : State) :
    declareName name context s = (.ok (), declared ⟨name, none⟩ s) := by
  show (if (s.scope.declareName name).enabled = true then tell (.declared name) else pure () : Rule Unit)
    context { s with scope := s.scope.declareName name } = _
  rw [Scope.declareName, declared]
  cases henabled : s.scope.enabled with
  | true =>
    rw [if_pos rfl, if_pos rfl, if_pos ((s.scope.enabled_bind _).trans henabled)]
    rfl
  | false =>
    rw [if_neg Bool.false_ne_true, if_neg Bool.false_ne_true, henabled, if_neg Bool.false_ne_true]
    rfl

/-- A declaration is told of without any item. -/
theorem declared_told {s : State} (h : Underway context origin begun items s) (binding : Binding) :
    Underway context origin begun items (declared binding s) := by
  rw [declared]
  split
  · next henabled => exact ⟨h.told.declared henabled binding, h.taken⟩
  · exact h

/-- A declared name is told of as it was read. -/
theorem declare_runs (identifier : Identifier) : (declare identifier).Runs context origin
    (Underway context origin begun items)
      fun v s => v.asRead = identifier.asRead ∧ Underway context origin begun items s := by
  intro s _ hs
  have htold := declared_told hs ⟨identifier.name, some { identifier with isLocal := true }⟩
  rw [declare_eq]
  refine ⟨⟨_, htold.told⟩, fun _ heq => ?_⟩
  obtain rfl := Except.ok.inj heq
  exact ⟨s.scope.asRead_declare identifier, htold⟩

/-- A bare name is declared without any item. -/
theorem declareName_silent (name : String) : (declareName name).Silent := by
  intro context origin begun items s _ hs
  have htold := declared_told hs ⟨name, none⟩
  rw [declareName_eq]
  exact ⟨⟨_, htold.told⟩, fun _ _ => htold⟩

/-- Declared names are told of as they were read. -/
theorem declareAll_runs (identifiers : List Identifier) : (declareAll identifiers).Runs context origin
    (Underway context origin begun items) fun v s =>
      ReadAlike (identifiers.map Identifier.item) (v.map Identifier.item) ∧
        Underway context origin begun items s := by
  induction identifiers with
  | nil => exact .give fun _ hs => ⟨rfl, hs⟩
  | cons identifier rest ih =>
    refine (declare_runs identifier).bindKnown fun declared hdeclared => ?_
    refine ih.bindKnown fun others hothers => .give fun _ hs => ⟨?_, hs⟩
    exact (Identifier.readAlike hdeclared).append hothers

theorem setJumps_silent (jumps : Jumps) : (setJumps jumps).Silent := by
  intro context origin begun items s _ hs
  have htold := hs.told.jumps jumps
  exact ⟨⟨_, htold⟩, fun _ _ => ⟨htold, hs.taken⟩⟩

theorem checked_silent (result : Except JumpFault α) : (checked result).Silent := by
  intro context origin begun items
  cases result with
  | ok v => exact .give fun _ hs => hs
  | error fault => exact .blame _ _ _

theorem openBlock_silent (isLoop : Bool) : (openBlock isLoop).Silent :=
  fun _ _ _ _ => .look fun _ => setJumps_silent _ _ _ _ _

theorem closeBlock_silent : closeBlock.Silent :=
  fun _ _ _ _ => .look fun _ => (checked_silent _).bind fun _ => setJumps_silent _ _ _ _ _

theorem goOn_silent : goOn.Silent := fun _ _ _ _ => .look fun _ => checked_silent _ _ _ _ _

theorem recordLocal_silent (name : String) : (recordLocal name).Silent :=
  fun _ _ _ _ => .look fun _ => setJumps_silent _ _ _ _ _

end Rule

open Rule

/-! ## Names and literals -/

/-- A name is told of when it is read. -/
theorem identifier_tells : identifier.Tells fun v => [v.item] := by
  refine fun context origin => .mark ?_
  refine .current fun s hs => ?_
  cases hname : s.token.name? with
  | none => exact .demand _
  | some name =>
    have hend : s.token.value ≠ .endOfInput := fun h => by rw [Token.name?, h] at hname; cases hname
    refine (Runs.step hs (isEnd_eq_false hend)).bind fun _ => ?_
    exact .node (fun _ => rfl) (fun _ => rfl) (fun _ => rfl) fun _ => .give fun _ ht => ht.told

/-- A name is read without being resolved, and behind it a parse stands at the token that came behind. -/
theorem identifier_eq_ok {s t : State} {name : Identifier}
    (h : identifier context s = (.ok name, t)) : name.asRead = name ∧ t.token = s.lookahead := by
  cases hname : s.token.name? with
  | none =>
    rw [identifier_of_none hname] at h
    cases h
  | some known =>
    rw [identifier_of_name hname] at h
    obtain ⟨_, t, hadvance, h⟩ := bind_eq_ok.mp h
    obtain ⟨_, _, -, rfl⟩ := advance_eq_ok.mp hadvance
    obtain ⟨hname, rfl⟩ := Prod.mk.inj h
    obtain rfl := Except.ok.inj hname
    exact ⟨rfl, rfl⟩

/-- A literal is told of when it is read. -/
theorem literal_tells : literal.Tells fun v => [v.item] := by
  refine fun context origin => .mark ?_
  refine .current fun s hs => ?_
  cases hvalue : literalValue? s.token.value with
  | none => exact .refuse
  | some value =>
    have hend : s.token.value ≠ .endOfInput := fun h => by rw [h] at hvalue; cases hvalue
    refine (Runs.step hs (isEnd_eq_false hend)).bind fun _ => ?_
    exact .node (fun _ => rfl) (fun _ => rfl) (fun _ => rfl) fun _ => .give fun _ ht => ht.told

/-- A name that is resolved was told of when it was read. -/
theorem resolved_tells : resolved.Tells fun v => [v.item] := by
  refine .of_runs fun context origin => identifier_tells.bind fun name => .read fun s hs => ?_
  obtain ⟨unresolved, hscope⟩ := s.scope.resolve_eq name
  have htold := hs.told.unresolved unresolved
  have hread := Identifier.readAlike (s.scope.asRead_resolve name)
  show ((modify fun t => { t with scope := (s.scope.resolve name).2.2 }) >>= fun _ =>
    pure (s.scope.resolve name).2.1 : Rule Identifier).Runs context origin (· = s) _
  rw [hscope]
  rintro _ - rfl
  exact ⟨⟨_, htold⟩, fun _ heq => Except.ok.inj heq ▸ htold.renamed hread⟩

/-- A declared name is told of as a name, or as one with a type. -/
theorem declarator_tells : declarator.Tells fun v => [v.item] := by
  refine fun context origin => .mark ?_
  have hread : identifier.Runs context origin (Underway context origin false []) fun v s =>
      v.asRead = v ∧ Underway context origin false [v.item] s :=
    (identifier_tells.runs.also fun _ _ _ _ hrun => (identifier_eq_ok hrun).1).mono (fun _ hs => hs)
      fun _ _ hs => hs.symm
  refine hread.bindKnown fun name hname => .has fun typed => ?_
  have hplain : (pure (.plain name) : Rule Declarator).Runs context origin
      (Underway context origin false [name.item]) fun v => Told context origin [v.item] :=
    .give fun _ hs => hs.told
  cases typed with
  | false => exact .at? (hplain.mono (fun _ hs => hs.1) fun _ _ hs => hs) hplain
  | true =>
    refine .at? ?_ hplain
    refine (Runs.advance fun _ hs => hs).bind fun _ => identifier_tells.bind fun type => ?_
    refine .node (fun _ => rfl) (fun _ => rfl) (fun _ => ?_) fun _ => .give fun _ ht => ht.told
    rw [Node.asRead, hname]
    rfl

/-- A member is told of behind its name. -/
theorem member_runs (base : Expression) (indexer : Indexer) (name : Identifier) :
    (member base indexer name origin.token.start).Runs context origin
      (Underway context origin true [base.item, name.item])
        fun v => Underway context origin true [v.item] :=
  .expression (fun _ => rfl) (fun _ => rfl) fun _ => rfl

/-! ## Blocks and functions -/

variable {nested : Nested}

/-- Rules for what is nested that tell of what they give. -/
structure Nested.Tells (nested : Nested) : Prop where
  statement : nested.statement.Tells fun v => v.toList.map Statement.item
  expression : ∀ level, (nested.expression level).Tells fun v => v.toList.map Expression.item

section

variable (hn : nested.Tells)

include hn

/-- A part of a block is told of by its statement, if it has one. -/
theorem blockTurn_tells : (blockTurn nested).Tells
    fun v => v.items.flatMap fun statement => statement.toList.map Statement.item := by
  refine .of_runs fun context origin => .glance fun token => .ite (fun _ => .give fun _ hs => hs.told) fun _ => ?_
  refine .has fun relaxed => hn.statement.bind fun statement => ?_
  have hitems : ([statement].flatMap fun v => v.toList.map Statement.item) =
    statement.toList.map Statement.item := List.append_nil _
  refine .ite (fun _ => .ite (fun _ => ?_) fun _ => ?_) fun _ => ?_
  · exact .consume (.give fun _ hs => hitems ▸ hs.told) (.give fun _ hs => hitems ▸ hs.told)
  · exact .give fun _ hs => hitems ▸ hs.told
  · exact .consume (.give fun _ hs => hitems ▸ hs.told) (.give fun _ hs => hitems ▸ hs.told)

omit hn in
/-- Without what is missing as many things are left as there are. -/
theorem map_filterMap_id {α β : Type} (f : α → β) (values : List (Option α)) :
    (values.filterMap id).map f = values.flatMap fun value => value.toList.map f := by
  induction values with
  | nil => rfl
  | cons value rest ih => cases value <;> simpa using ih

/-- The statements of a block are told of in their order. -/
theorem statements_tells : (statements nested).Tells fun v => v.map Statement.item := by
  refine .of_runs fun context origin => (Tells.repeated (blockTurn_tells hn)).bind fun turns => ?_
  refine .give fun _ hs => ?_
  rw [map_filterMap_id]
  exact hs.told

/-- A block with a scope of its own is told of between the beginning and the end of its scope. -/
theorem scopedBlock_tells (isLoop : Bool) : (scopedBlock nested isLoop).Tells Block.items := by
  refine .of_runs fun context origin => openScope_tells.bind fun _ => ?_
  refine (openBlock_silent isLoop).bind fun _ => (statements_tells hn).bind fun body => ?_
  refine closeBlock_silent.bind fun _ => (closeScope_runs [] _ rfl).bind fun scope => ?_
  exact .give fun _ hs => hs.told

end

/-! ### Functions -/

/-- A parameter is told of as its name was read. -/
theorem declaredParameter_runs (name : Declarator) : (declaredParameter name).Runs context origin
    (Underway context origin begun (items ++ [name.item]))
      fun v => Underway context origin begun (items ++ [v.item]) := by
  cases name with
  | plain identifier =>
    refine (declare_runs identifier).bindKnown fun declared hdeclared => .give fun _ hs => ?_
    exact hs.renamed ((ReadAlike.refl items).append (Identifier.readAlike hdeclared))
  | typed declared =>
    refine (declare_runs declared.name).bindKnown fun name hname => .give fun _ hs => ?_
    have halike : ReadAlike [(Declarator.typed declared).item] _ := Declarator.readAlike hname
    exact hs.renamed ((ReadAlike.refl items).append halike)

/-- Three dots in the parameters of a function allow them in its body. -/
theorem allowVararg_silent :
    (modify fun s => { s with jumps := { s.jumps with allowsVararg := true } }).Silent := by
  intro context origin begun items s _ hs
  have htold := hs.told.jumps { s.jumps with allowsVararg := true }
  exact ⟨⟨_, htold⟩, fun _ _ => ⟨htold, hs.taken⟩⟩

/-- A turn of a list of parameters tells of the one that it reads. -/
theorem parameterTurn_tells : parameterTurn.Tells fun v => v.items.flatMap fun p => [p.item] := by
  refine .of_runs fun context origin => .glance fun token => ?_
  split
  · refine declarator_tells.bind fun name => (declaredParameter_runs name).bind fun parameter => ?_
    refine .consume (.give fun _ hs => hs.told) ?_
    exact (Runs.expect _).bind fun _ => .give fun _ hs => hs.told
  · refine allowVararg_silent.bind fun _ => literal_tells.bind fun dots => ?_
    exact (Runs.expect _).bind fun _ => .give fun _ hs => hs.told
  · exact .demand _

/-- Parameters are told of in their order. -/
theorem parameters_tells : parameters.Tells fun v => v.map Parameter.item := by
  refine .of_runs fun context origin => (Runs.expect _).bind fun _ => .consume ?_ ?_
  · exact .give fun _ hs => hs.told
  · refine (Tells.repeated parameterTurn_tells).runs.mono (fun _ hs => hs) fun _ _ hs => ?_
    rw [List.map_eq_flatMap]
    exact hs.told

/-- What was told before the body of a function is its name. The function is a statement or an
expression. -/
theorem functionBody_runs (hn : nested.Tells) {name : Option Expression} (isLocal isMethod : Bool)
    (node : Function → Node) (hitems : ∀ function, (node function).items = function.items)
    (hplacement : ∀ name isLocal parameters body placement,
      (node (.mk name isLocal parameters body placement)).placement = placement) :
    (functionBody nested name isLocal isMethod origin.token.start).Runs context origin
      (Underway context origin true (name.toList.map Expression.item))
        fun v => Ended context origin (node v) := by
  refine openScope_tells.bind fun _ => (declareName_silent "self").branch ?_
  refine .look fun s => (setJumps_silent _).bind fun _ => (openBlock_silent false).bind fun _ => ?_
  refine parameters_tells.bind fun parameters => (statements_tells hn).bind fun body => ?_
  refine closeBlock_silent.bind fun _ => (setJumps_silent _).bind fun _ => (Runs.expect _).bind fun _ => ?_
  refine (closeScope_runs (name.toList.map Expression.item)
    (parameters.map Parameter.item ++ body.map Statement.item) ?_).bind fun scope => ?_
  · simp only [List.append_assoc, List.cons_append, List.nil_append]
  · refine .ended (fun placement => (hitems _).trans ?_) (fun _ => hplacement _ _ _ _ _) fun _ _ hs => hs
    simp only [Function.items, Block.items, List.append_assoc]

/-- A parse need not say that it has taken a token. -/
theorem Underway.weaken {s : State} (h : Underway context origin begun items s) :
    Underway context origin false items s :=
  ⟨h.told, nofun⟩

/-- A longer name of a function is told of behind the shorter one. -/
theorem nameStep_runs (base : Expression) : (nameStep origin.token.start base).Runs context origin
    (Underway context origin true [base.item])
      fun v => Underway context origin true [(v.getD base).item] := by
  refine .consume (identifier_tells.bind fun name => ?_) (.give fun _ hs => hs)
  exact (member_runs base .dot name).bind fun _ => .give fun _ hs => hs

/-- A name that was told of when a parse began has taken a token. -/
theorem Underway.begun_of_node {node : Node} {s : State}
    (h : Underway context origin begun items s) (hmem : .node node ∈ items) :
    Underway context origin true items s :=
  ⟨h.told, fun _ => h.told.taken_lt hmem⟩

/-- The name of a function is told of as an expression. -/
theorem functionName_tells : functionName.Tells fun v => [v.1.item] := by
  refine fun context origin => .mark ?_
  refine resolved_tells.bind fun name => ?_
  have hname (s : State) (h : Underway context origin false [name.item] s) :
    Underway context origin true [(Expression.identifier name).item] s := h.begun_of_node List.mem_cons_self
  have hrow := Runs.iterated (fun v : Expression => Underway context origin true [v.item])
    nameStep_runs (.identifier name)
  refine (hrow.since hname).bind fun base => ?_
  refine .consume (identifier_tells.bind fun name => ?_) (.give fun _ hs => hs.told)
  exact (member_runs base .colon name).bind fun _ => .give fun _ hs => hs.told

end Grammar

end LuaSyntax
