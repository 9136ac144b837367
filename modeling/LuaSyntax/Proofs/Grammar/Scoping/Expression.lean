import LuaSyntax.Grammar.Expression
import LuaSyntax.Proofs.Grammar.Scoping.Block

/-!
# Scopes of expressions

Expressions declare nothing around themselves. They note the names that are used in them, and what is
put together from resolved parts in the order in which they were read is resolved again.
-/

namespace LuaSyntax.Grammar

open Rule

variable {frames : List (List Binding)} {known : List Identifier} {base : Expression}

/-- Behind an expression that is resolved, what its steps make of it is resolved. -/
theorem Rule.Leads.iterated_behind {step : Expression → Rule (Option Expression)}
    (h : ∀ base, (step base).Leads (State.Behind frames known base) fun v =>
      State.Behind frames known (v.getD base))
    (hbase : Resolved (visible frames) base) :
    (Rule.iterated step base).Leads (State.Scoped frames (noted known (free base)))
      (State.Behind frames known) :=
  (Leads.iterated h base).mono (fun _ hs => ⟨hbase, hs⟩) fun _ _ hs => hs

/-- What reads an expression reads one that might be absent. -/
theorem Rule.Leads.some {r : Rule Expression} {pre : State → Prop}
    (h : r.Leads pre (State.Behind frames known)) :
    (r >>= fun expression => pure (Option.some expression)).Leads pre (State.Behind frames known) :=
  h.bind fun _ => .give fun _ hs => ⟨resolved_some.mpr hs.1, hs.2⟩

/-- What has to be there is resolved if what might have been missing is. -/
theorem required_resolves {r : Rule (Option Expression)} (h : r.Resolves) :
    (required r).Resolves := fun frames known => h.leads fun expression? hresolved => by
  cases expression? with
  | none => exact .demand _
  | some expression => exact .resolved (resolved_some.mp hresolved) rfl

variable {nested : Nested} (hn : nested.Resolves)

include hn

/-- Every expression is resolved where it stands. -/
theorem expression_resolves : (expression nested).Resolves := required_resolves (hn.expression 0)

/-- What stands behind a comma is resolved. -/
theorem commaExpression_resolves : (commaExpression nested).Resolves := by
  intro frames known
  refine (unscoped_consume _).leads fun _ => .ite (fun _ => ?_) fun _ => ?_
  · exact .some (expression_resolves hn frames known)
  · exact .resolved resolved_none rfl

/-- The expressions of a list are resolved, all in the same frames. -/
theorem expressionList_resolves : (expressionList nested).Resolves := by
  intro frames known
  refine (expression_resolves hn).leads fun first hfirst => ?_
  refine (commaExpression_resolves hn).many.leads fun others hothers => ?_
  exact .resolved (resolved_cons.mpr ⟨hfirst, hothers⟩) (noted_append _ _ _)

/-- A list that may be missing is resolved. -/
theorem optionalList_resolves : (optionalList nested).Resolves := by
  intro frames known
  refine (hn.expression 0).leads fun first? hfirst => ?_
  cases first? with
  | none => exact .resolved resolved_nil rfl
  | some first =>
    refine (commaExpression_resolves hn).many.leads fun others hothers => ?_
    exact .resolved (resolved_cons.mpr ⟨resolved_some.mp hfirst, hothers⟩) (noted_append _ _ _)

/-! ## Constructors -/

/-- The key of a field is resolved if it is an expression, and its value is. -/
theorem tableField_resolves : (tableField nested).Resolves := by
  intro frames known
  refine unscoped_mark.leads fun start => ?_
  refine (unscoped_consume _).leads fun _ => .ite (fun _ => ?_) fun _ => ?_
  · refine (expression_resolves hn).leads fun key hkey => (unscoped_expect _).leads fun _ => ?_
    refine (unscoped_expect _).leads fun _ => (expression_resolves hn).leads fun value hvalue => ?_
    refine (unscoped_placed start).leads fun _ => ?_
    exact .resolved (resolved_some.mpr (resolved_keyed hkey hvalue)) (noted_append _ _ _)
  refine unscoped_current.leads fun _ => unscoped_state.leads fun _ => ?_
  refine .ite (fun _ => ?_) fun _ => ?_
  · refine leads_identifier fun name hname => unscoped_advance.leads fun _ => ?_
    refine (expression_resolves hn).leads fun value hvalue => ?_
    refine (unscoped_placed start).leads fun _ => ?_
    exact .resolved (resolved_some.mpr (resolved_named hname hvalue)) rfl
  refine (hn.expression 0).leads fun value? hvalue => ?_
  cases value? with
  | none => exact .resolved resolved_none rfl
  | some value =>
    refine (unscoped_placed start).leads fun _ => ?_
    exact .resolved (resolved_some.mpr (resolved_positional (resolved_some.mp hvalue))) rfl

/-- A turn of a table resolves its field. -/
theorem tableTurn_resolves : (tableTurn nested).Resolves := by
  intro frames known
  refine (tableField_resolves hn).leads fun field? hfield => ?_
  cases field? with
  | none => exact .resolved resolved_nil rfl
  | some field =>
    refine (unscoped_complete _).leads fun _ => (unscoped_at? _).leads fun _ => ?_
    refine (unscoped_at? _).leads fun _ => .ite (fun _ => ?_) fun _ => ?_
    · exact unscoped_advance.leads fun _ => .turn rfl (resolved_some.mp hfield) rfl
    · exact .turn rfl (resolved_some.mp hfield) rfl

/-- The fields of a table are resolved, all in the same frames. -/
theorem tableBody_resolves (start : Place) : (tableBody nested start).Resolves := by
  intro frames known
  refine (tableTurn_resolves hn).repeated.leads fun fields hfields => ?_
  refine (unscoped_expect _).leads fun _ => (unscoped_placed start).leads fun _ => ?_
  refine (unscoped_complete _).leads fun _ => ?_
  exact .resolved (resolved_table hfields) (congrArg (noted known) (free_table fields))

/-- A field of a structure is resolved in its value. -/
theorem makeTurn_resolves : (makeTurn nested).Resolves := by
  intro frames known
  refine (unscoped_at? _).leads fun _ => .ite (fun _ => ?_) fun _ => ?_
  · exact .resolved resolved_nil rfl
  refine unscoped_mark.leads fun start => leads_identifier fun name hname => ?_
  refine (unscoped_expect _).leads fun _ => (expression_resolves hn).leads fun value hvalue => ?_
  refine (unscoped_placed start).leads fun placement => (unscoped_complete _).leads fun _ => ?_
  refine (unscoped_at? _).leads fun _ => (unscoped_at? _).leads fun _ => ?_
  refine .ite (fun _ => unscoped_advance.leads fun _ => ?_) fun _ => ?_
  · exact .turn rfl (resolved_makeField hname hvalue) rfl
  · exact .turn rfl (resolved_makeField hname hvalue) rfl

/-- The fields of a structure are resolved. -/
theorem makeBody_resolves (start : Place) : (makeBody nested start).Resolves := by
  intro frames known
  refine leads_identifier fun type htype => (unscoped_expect _).leads fun _ => ?_
  refine (makeTurn_resolves hn).repeated.leads fun fields hfields => ?_
  refine (unscoped_expect _).leads fun _ => (unscoped_placed start).leads fun _ => ?_
  exact completed_leads (resolved_make htype hfields) (congrArg (noted known) (free_make type fields))

/-- A primary expression is resolved, a function in frames of its own. -/
theorem primary_resolves : (primary nested).Resolves := by
  intro frames known
  refine unscoped_mark.leads fun start => unscoped_current.leads fun token => ?_
  refine .ite (fun _ => ?_) fun _ => ?_
  · refine unscoped_state.leads fun _ => .ite (fun _ => .blame _ _ _) fun _ => ?_
    exact unscoped_literal.leads fun leaf => .resolved (resolved_some.mpr (resolved_literal leaf)) rfl
  refine (unscoped_consume _).leads fun _ => .ite (fun _ => ?_) fun _ => ?_
  · have hbody : (functionBody nested none false false start).Leads (State.Scoped frames known)
        fun function s => function.bindings = [] ∧ s.Behind frames known function :=
      functionBody_leads hn false start resolved_none rfl
    refine hbody.bind fun function => .of_known fun _ => .behind fun hfunction => .some ?_
    exact completed_leads (resolved_functionExpression hfunction) rfl
  refine (unscoped_consume _).leads fun _ => .ite (fun _ => ?_) fun _ => ?_
  · refine (tableBody_resolves hn start).leads fun table htable => ?_
    exact .resolved (resolved_some.mpr (resolved_tableExpression htable)) rfl
  refine (unscoped_consume _).leads fun _ => .ite (fun _ => ?_) fun _ => ?_
  · exact .some (makeBody_resolves hn start frames known)
  · exact .resolved resolved_none rfl

/-! ## Suffixes -/

/-- The arguments of a call are resolved behind what is called. -/
theorem callArguments_leads (hbase : Resolved (visible frames) base) (start : Place) :
    (callArguments nested base start).Leads (State.Scoped frames (noted known (free base)))
      (State.Behind frames known) := by
  refine unscoped_current.leads fun token => .ite (fun _ => ?_) fun _ => ?_
  · refine (unscoped_has _).leads fun _ => unscoped_state.leads fun _ => ?_
    refine .ite (fun _ => .blame _ _ _) fun _ => unscoped_advance.leads fun _ => ?_
    refine (optionalList_resolves hn).leads fun arguments harguments => ?_
    refine (unscoped_expect _).leads fun _ => (unscoped_placed start).leads fun _ => ?_
    refine completed_leads (resolved_call hbase harguments) ?_
    rw [free_call, noted_append]
  refine .ite (fun _ => ?_) fun _ => .ite (fun _ => ?_) fun _ => .demand _
  · refine unscoped_mark.leads fun tableStart => unscoped_advance.leads fun _ => ?_
    refine (tableBody_resolves hn tableStart).leads fun table htable => ?_
    refine (unscoped_placed start).leads fun _ => ?_
    exact completed_leads (resolved_tableCall hbase htable) (noted_append _ _ _)
  · refine unscoped_literal.leads fun leaf => (unscoped_placed start).leads fun _ => ?_
    exact completed_leads (resolved_stringCall hbase leaf) rfl

/-- A suffix is resolved behind its base. -/
theorem suffix_leads (hbase : Resolved (visible frames) base) (start : Place) :
    (suffix nested start base).Leads (State.Scoped frames (noted known (free base)))
      (State.Behind frames known) := by
  refine (unscoped_consume _).leads fun _ => .ite (fun _ => ?_) fun _ => ?_
  · refine (expression_resolves hn).leads fun index hindex => (unscoped_expect _).leads fun _ => ?_
    refine (unscoped_placed start).leads fun _ => ?_
    exact completed_leads (resolved_index hbase hindex) (noted_append _ _ _)
  refine (unscoped_consume _).leads fun _ => .ite (fun _ => ?_) fun _ => ?_
  · exact leads_identifier fun name hname => member_leads hbase .dot start hname
  refine (unscoped_consume _).leads fun _ => .ite (fun _ => ?_) fun _ => ?_
  · refine leads_identifier fun name hname => ?_
    refine (member_leads hbase .colon start hname).bind fun method => .behind fun hmethod => ?_
    exact callArguments_leads hn hmethod start
  · exact callArguments_leads hn hbase start

/-- A step over a suffix resolves what it adds. -/
theorem suffixStep_leads (start : Place) (base : Expression) :
    (suffixStep nested start base).Leads (State.Behind frames known base) fun v =>
      State.Behind frames known (v.getD base) := by
  apply Leads.behind
  intro hbase
  refine unscoped_current.leads fun _ => .ite (fun _ => ?_) fun _ => ?_
  · exact (suffix_leads hn hbase start).bind fun _ => .give fun _ hs => hs
  · exact .give fun _ hs => ⟨hbase, hs⟩

/-- What stands in parentheses is resolved. -/
theorem parenthesised_resolves : (parenthesised nested).Resolves := by
  intro frames known
  refine (expression_resolves hn).leads fun inner hinner => ?_
  exact (unscoped_expect _).leads fun _ => .resolved hinner rfl

/-- The name that something with suffixes begins with is resolved, and so are the suffixes. -/
theorem suffixed_resolves : (suffixed nested).Resolves := by
  intro frames known
  refine unscoped_mark.leads fun start => unscoped_current.leads fun _ => ?_
  refine .ite (fun _ => ?_) fun _ => ?_
  · refine resolved_leads.bind fun name => .behind fun hname => .some ?_
    exact .iterated_behind (suffixStep_leads hn start) hname
  refine (unscoped_consume _).leads fun _ => .ite (fun _ => ?_) fun _ => ?_
  · refine (parenthesised_resolves hn).leads fun inner hinner => .some ?_
    exact .iterated_behind (suffixStep_leads hn start) hinner
  · exact .resolved resolved_none rfl

/-! ## Operators -/

/-- An operand is resolved, with its prefix operators. -/
theorem operand_resolves (start : Place) : (operand nested start).Resolves := by
  intro frames known
  refine unscoped_current.leads fun token => ?_
  cases UnaryOperator.ofToken? token.value with
  | some operator =>
    refine unscoped_advance.leads fun _ => ?_
    refine (required_resolves (hn.expression _)).leads fun argument hargument => ?_
    refine (unscoped_placed start).leads fun _ => .some ?_
    exact completed_leads (resolved_unary operator hargument) rfl
  | none =>
    refine (primary_resolves hn).leads fun first? hfirst => ?_
    cases first? with
    | some first => exact .resolved hfirst rfl
    | none => exact suffixed_resolves hn frames known

omit hn in
/-- Joined operands are resolved if both are. -/
theorem resolved_joined {left right : Expression} {placement : Placement} (operator : Operator)
    (hleft : Resolved (visible frames) left) (hright : Resolved (visible frames) right) :
    Resolved (visible frames) (joined operator left right placement) := by
  cases operator with
  | logical operator => exact resolved_logical operator hleft hright
  | binary operator => exact resolved_binary operator hleft hright

omit hn in
/-- The free names of joined operands are those of both, from left to right. -/
theorem free_joined {left right : Expression} {placement : Placement} (operator : Operator) :
    free (joined operator left right placement) = free left ++ free right := by
  cases operator <;> rfl

/-- A step over an operator resolves what stands on its right. -/
theorem operatorStep_leads (level : Nat) (start : Place) (left : Expression) :
    (operatorStep nested level start left).Leads (State.Behind frames known left) fun v =>
      State.Behind frames known (v.getD left) := by
  apply Leads.behind
  intro hleft
  refine unscoped_current.leads fun token => ?_
  have hstay : (pure none : Rule (Option Expression)).Leads
      (State.Scoped frames (noted known (free left))) fun v =>
        State.Behind frames known (v.getD left) :=
    .give fun _ hs => ⟨hleft, hs⟩
  cases Operator.ofToken? token.value with
  | none => exact hstay
  | some operator =>
    show Leads (if operator.level ≤ level then _ else _) _ _
    split
    · exact hstay
    refine unscoped_advance.leads fun _ => ?_
    refine (required_resolves (hn.expression _)).leads fun right hright => ?_
    refine (unscoped_placed start).leads fun _ => ?_
    refine (completed_leads (resolved_joined operator hleft hright) ?_).bind fun _ =>
      .give fun _ hs => hs
    rw [free_joined, noted_append]

/-- A row of operands is resolved from left to right. -/
theorem operation_resolves (level : Nat) : (operation nested level).Resolves := by
  intro frames known
  refine unscoped_mark.leads fun start => ?_
  refine (operand_resolves hn start).leads fun first? hfirst => ?_
  cases first? with
  | none => exact .resolved resolved_none rfl
  | some first =>
    exact .some (.iterated_behind (operatorStep_leads hn level start) (resolved_some.mp hfirst))

end LuaSyntax.Grammar
