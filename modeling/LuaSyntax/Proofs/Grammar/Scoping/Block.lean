import LuaSyntax.Grammar.Block
import LuaSyntax.Proofs.Grammar.Scoping.Leaf

/-!
# Scopes of blocks and functions

The statements of a block are read with the frame of the block innermost, and what they declare is
added to it. When the block is closed, the frame has become what the block is entered with and all
that its statements declare.
-/

namespace LuaSyntax.Grammar

open Rule

variable {frames : List (List Binding)} {frame : List Binding} {known : List Identifier}

/-- A state behind some statements of a block that was entered with some declarations. -/
def State.Within (first : List Binding) (frames : List (List Binding)) (known : List Identifier)
    (statements : List Statement) (s : State) : Prop :=
  ResolvedRow (visible (first :: frames)) statements ∧
    s.Scoped ((first ++ statements.flatMap Statement.bindings) :: frames) (noted known (free statements))

/-- Where nothing was read nothing was declared. -/
theorem State.Within.nil {s : State} (hs : s.Scoped (frame :: frames) known) :
    s.Within frame frames known [] :=
  ⟨.nil, by rwa [List.flatMap_nil, List.append_nil]⟩

/-- Rules for what is nested that resolve what they read. -/
structure Nested.Resolves (nested : Nested) : Prop where
  statement : ∀ frame frames known, nested.statement.Leads (State.Scoped (frame :: frames) known)
    fun v => State.Within frame frames known v.toList
  expression : ∀ level, (nested.expression level).Resolves

/-- One statement alone. -/
theorem Rule.Leads.statement {statement : Statement} {noting : List Identifier}
    (h : Resolved (visible (frame :: frames)) statement)
    (hfree : noted known (free statement) = noting) :
    (pure statement : Rule Statement).Leads
      (State.Scoped ((frame ++ statement.bindings) :: frames) noting)
      fun v => State.Within frame frames known [v] := by
  apply Leads.give
  intro s hs
  refine ⟨.singleton h, ?_⟩
  have hbindings : [statement].flatMap Statement.bindings = statement.bindings :=
    List.append_nil _
  rwa [hbindings, free_singleton, hfree]

/-- One statement that declares nothing. -/
theorem Rule.Leads.plainStatement {statement : Statement} {noting : List Identifier}
    (h : Resolved (visible (frame :: frames)) statement) (hbindings : statement.bindings = [])
    (hfree : noted known (free statement) = noting) :
    (pure statement : Rule Statement).Leads (State.Scoped (frame :: frames) noting)
      fun v => State.Within frame frames known [v] := by
  have hstatement := Leads.statement h hfree
  rwa [hbindings, List.append_nil] at hstatement

/-- Statements behind others are read where those have declared what they declare. -/
theorem State.Within.append {statements more : List Statement} {s : State}
    (h : ResolvedRow (visible (frame :: frames)) statements)
    (hs : s.Within (frame ++ statements.flatMap Statement.bindings) frames
      (noted known (free statements)) more) :
    s.Within frame frames known (statements ++ more) := by
  obtain ⟨hrow, hscope⟩ := hs
  rw [visible_append] at hrow
  refine ⟨h.append hrow, ?_⟩
  rwa [List.flatMap_append, free_append, noted_append, ← List.append_assoc]

section

variable {nested : Nested} (hn : nested.Resolves)

include hn

/-- A part of a block is resolved in the frame before it, and its declarations are in the frame behind it. -/
theorem blockTurn_leads : (blockTurn nested).Leads (State.Scoped (frame :: frames) known) fun v =>
    State.Within frame frames known (v.items.filterMap id) := by
  refine unscoped_current.leads fun token => .ite (fun _ => ?_) fun _ => ?_
  · exact .give fun _ hs => .nil hs
  refine (unscoped_has _).leads fun relaxed => ?_
  refine (hn.statement frame frames known).bindKnown fun statement hstatement => ?_
  have hrow : State.Within frame frames known ([statement].filterMap id) =
      State.Within frame frames known statement.toList := by
    cases statement <;> rfl
  refine .ite (fun _ => .ite (fun _ => ?_) fun _ => ?_) fun _ => ?_
  · exact (unscoped_consume _).leads fun _ => .give fun s hs => hrow ▸ ⟨hstatement, hs⟩
  · exact .give fun s hs => hrow ▸ ⟨hstatement, hs⟩
  · exact (unscoped_consume _).leads fun _ => .give fun s hs => hrow ▸ ⟨hstatement, hs⟩

/-- The statements of a block are resolved one after another, each in the frame behind those before it. -/
theorem statements_leads : (statements nested).Leads (State.Scoped (frame :: frames) known)
    (State.Within frame frames known) := by
  have hturn (items : List (Option Statement)) : (blockTurn nested).Leads
      (State.Within frame frames known (items.filterMap id)) fun v =>
        State.Within frame frames known ((items ++ v.items).filterMap id) := by
    apply Leads.of_known
    intro hrow
    refine (blockTurn_leads hn).mono (fun _ hs => hs) fun v s hs => ?_
    rw [List.filterMap_append]
    exact hs.append hrow
  have hturns := Leads.repeated
    (I := fun items => State.Within frame frames known (items.filterMap id)) hturn
  exact (hturns.mono (fun _ hs => .nil hs) fun _ _ hs => hs).bind fun _ => .give fun _ hs => hs

/-- A block with a scope of its own is resolved in a frame of its own, which is closed behind it. -/
theorem scopedBlock_leads (isLoop : Bool) :
    (scopedBlock nested isLoop).Leads (State.Scoped frames known) fun body s =>
      ResolvedBody (visible frames) [] body ∧ s.Scoped frames (noted known body.free) := by
  refine openScope_leads.bind fun _ => (unscoped_openBlock isLoop).leads fun _ => ?_
  refine (statements_leads hn).bindKnown fun body hrow => unscoped_closeBlock.leads fun _ => ?_
  refine closeScope_leads.bindKnown fun scope hscope => .give fun s hs => ?_
  subst hscope
  exact ⟨resolved_block hrow, by rwa [free_block]⟩

end

/-! ## Functions -/

/-- A state behind some parameters. -/
def State.Entered (first : List Binding) (frames : List (List Binding)) (known : List Identifier)
    (parameters : List Parameter) (s : State) : Prop :=
  (∀ parameter ∈ parameters, (parameter.erase .resolution).declared = parameter) ∧
    s.Scoped ((first ++ parameters.flatMap Parameter.bindings) :: frames) known

/-- A parameter is declared as it is read. -/
theorem declaredParameter_leads {name : Declarator} (hname : name.erase .resolution = name) :
    (declaredParameter name).Leads (State.Scoped (frame :: frames) known) fun parameter =>
      State.Entered frame frames known [parameter] := by
  cases name with
  | plain identifier =>
    refine (declare_leads identifier).bindKnown fun declared hdeclared => .give fun s hs => ?_
    subst hdeclared
    exact ⟨List.forall_mem_singleton.mpr rfl, hs⟩
  | typed annotated =>
    have htype := congrArg TypedIdentifier.type (Declarator.typed.inj hname)
    refine (declare_leads annotated.name).bindKnown fun declared hdeclared => .give fun s hs => ?_
    subst hdeclared
    refine ⟨List.forall_mem_singleton.mpr ?_, hs⟩
    exact congrArg (fun type => Parameter.typed
      ⟨annotated.name.declared, type, annotated.placement⟩) htype

/-- A turn of a list of parameters declares the one that it reads. -/
theorem parameterTurn_leads : parameterTurn.Leads (State.Scoped (frame :: frames) known) fun v =>
    State.Entered frame frames known v.items := by
  refine unscoped_current.leads fun token => ?_
  split
  · refine declarator_leads.bindKnown fun name hname => ?_
    refine (declaredParameter_leads hname).bindKnown fun parameter hparameter => ?_
    refine (unscoped_consume _).leads fun _ => .ite (fun _ => ?_) fun _ => ?_
    · exact .give fun _ hs => ⟨hparameter, hs⟩
    · exact (unscoped_expect _).leads fun _ => .give fun _ hs => ⟨hparameter, hs⟩
  · refine (unscoped_modify ?_).leads fun _ => unscoped_literal.leads fun dots => ?_
    · exact fun _ => rfl
    refine (unscoped_expect _).leads fun _ => .give fun s hs => ?_
    refine ⟨List.forall_mem_singleton.mpr rfl, ?_⟩
    show s.Scoped ((frame ++ []) :: frames) known
    rwa [List.append_nil]
  · exact .demand _

/-- Parameters are declared one after another. -/
theorem parameters_leads : parameters.Leads (State.Scoped (frame :: frames) known)
    (State.Entered frame frames known) := by
  have hnone (s : State) (hs : s.Scoped (frame :: frames) known) :
      s.Entered frame frames known [] :=
    ⟨List.forall_mem_nil _, by rwa [List.flatMap_nil, List.append_nil]⟩
  refine (unscoped_expect _).leads fun _ => (unscoped_consume _).leads fun _ => ?_
  refine .ite (fun _ => .give hnone) fun _ => (Leads.repeated ?_).mono hnone fun _ _ hs => hs
  intro items
  apply Leads.of_known
  intro hitems
  refine parameterTurn_leads.mono (fun _ hs => hs) fun v s ⟨hv, hs⟩ => ?_
  refine ⟨List.forall_mem_append.mpr ⟨hitems, hv⟩, ?_⟩
  rwa [List.flatMap_append, ← List.append_assoc]

/-- A function is entered with its receiver, if it is a method, and its parameters. What it declares
around itself is in force already. -/
theorem functionBody_leads {nested : Nested} (hn : nested.Resolves) {name : Option Expression}
    {isMethod : Bool} (isLocal : Bool) (start : Place) (hname : Resolved (visible frames) name)
    (hreceiver : receiver name = if isMethod then [⟨"self", none⟩] else []) :
    (functionBody nested name isLocal isMethod start).Leads
      (State.Scoped frames (noted known (free name))) fun function s =>
        function.bindings = functionBindings name isLocal ∧ s.Behind frames known function := by
  refine openScope_leads.bind fun _ => ?_
  refine Leads.branch (State.Scoped (receiver name :: frames) (noted known (free name)))
    (fun hmethod => ?_) (fun hmethod s hs => ?_) ?_
  · rw [hreceiver, hmethod]
    exact declareName_leads "self"
  · rwa [hreceiver, hmethod]
  refine unscoped_state.leads fun outer => (unscoped_setJumps _).leads fun _ => ?_
  refine (unscoped_openBlock false).leads fun _ => ?_
  refine parameters_leads.bindKnown fun parameters hparameters => ?_
  refine (statements_leads hn).bindKnown fun body hrow => unscoped_closeBlock.leads fun _ => ?_
  refine (unscoped_setJumps _).leads fun _ => (unscoped_expect _).leads fun _ => ?_
  refine closeScope_leads.bindKnown fun scope hscope => (unscoped_placed start).leads fun _ => ?_
  subst hscope
  refine .give fun s hs => ⟨rfl, resolved_function hname hparameters (resolved_block hrow), ?_⟩
  rwa [free_function, noted_append, free_block]

/-- A member behind a colon makes a method. -/
theorem member_receiver {pre : State → Prop} (base : Expression) (indexer : Indexer)
    (name : Identifier) (start : Place) :
    (member base indexer name start).Leads pre fun v _ =>
      receiver (some v) = if indexer = .colon then [⟨"self", none⟩] else [] := by
  intro context s v s' _ hrun
  cases hrun
  cases indexer <;> rfl

/-- What makes the name of a function longer declares nothing. -/
theorem nameStep_leads (start : Place) (base : Expression) :
    (nameStep start base).Leads (fun s => receiver (some base) = [] ∧ s.Behind frames known base)
      fun v s => receiver (some (v.getD base)) = [] ∧ s.Behind frames known (v.getD base) := by
  apply Leads.of_known
  intro hreceiver
  apply Leads.behind
  intro hbase
  refine (unscoped_consume _).leads fun _ => .ite (fun _ => ?_) fun _ => ?_
  · refine leads_identifier fun name hname => ?_
    have hmember := @member_leads frames known base hbase .dot name start hname
    exact ((member_receiver base .dot name start).and hmember).bind fun _ => .give fun _ hs => hs
  · exact .give fun _ hs => ⟨hreceiver, hbase, hs⟩

/-- The name of a function is resolved like an expression, and says whether there is a receiver. -/
theorem functionName_leads : functionName.Leads (State.Scoped frames known) fun v s =>
    receiver (some v.1) = (if v.2 then [⟨"self", none⟩] else []) ∧ s.Behind frames known v.1 := by
  refine unscoped_mark.leads fun start => resolved_leads.bind fun name => ?_
  have hbase := Leads.iterated (@nameStep_leads frames known start) (.identifier name)
  refine (hbase.mono (fun _ hs => ⟨rfl, hs⟩) fun _ _ hs => hs).bind fun base => ?_
  apply Leads.of_known
  intro hreceiver
  apply Leads.behind
  intro hresolved
  refine (unscoped_consume _).leads fun _ => .ite (fun _ => ?_) fun _ => ?_
  · refine leads_identifier fun name hname => ?_
    have hmember := @member_leads frames known base hresolved .colon name start hname
    exact ((member_receiver base .colon name start).and hmember).bind fun _ => .give fun _ hs => hs
  · exact .give fun _ hs => ⟨hreceiver, hresolved, hs⟩

end LuaSyntax.Grammar
