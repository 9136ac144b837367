import LuaSyntax.Proofs.Grammar.Grounded.Block
import LuaSyntax.Proofs.Grammar.Lockstep.Expression

/-!
# Expressions on a ground

An operator needs the feature that its token needs. A field that is nothing but its value begins with
the value, so it has to be known that a value takes a token.
-/

namespace LuaSyntax

/-- A prefix operator needs the feature that its token needs. -/
theorem UnaryOperator.feature?_of_token {value : TokenValue} {operator : UnaryOperator}
    (h : ofToken? value = some operator) : operator.feature? = value.feature? := by
  revert h
  fun_cases ofToken? value <;> intro h <;> cases h <;> rfl

/-- The feature of a dialect that an operator needs. -/
def Operator.feature? : Operator → Option Feature
  | .logical _ => none
  | .binary operator => operator.feature?

/-- An operator needs the feature that its token needs. -/
theorem Operator.feature?_of_token {value : TokenValue} {operator : Operator}
    (h : ofToken? value = some operator) : operator.feature? = value.feature? := by
  revert h
  fun_cases ofToken? value <;> intro h <;> cases h <;> rfl

namespace Grammar

open Rule

variable {g : Ground} {base : State → Prop} {start : Place} {nested : Nested}

section

variable (hn : nested.Builds g)

include hn

/-- An expression that has to be there is known. -/
theorem required_builds (level : Nat) : (required (nested.expression level)).Builds g base
    fun v => v.Meets g.demands := by
  refine (hn.expression base level).bind fun v hv => ?_
  cases v with
  | none => exact .demand _
  | some expression => exact .give (hv expression rfl)

/-- Any expression is known. -/
theorem expression_builds : (expression nested).Builds g base fun v => v.Meets g.demands :=
  required_builds hn 0

/-- What stands behind a comma is known. -/
theorem commaExpression_builds : (commaExpression nested).Builds g base
    fun v => ∀ expression ∈ v, expression.Meets g.demands :=
  .consume (expression_builds hn).some (.give nofun)

/-- The expressions of a list are known. -/
theorem expressionList_builds : (expressionList nested).Builds g base fun v =>
    expressionsMeet g.demands v :=
  (expression_builds hn).bind fun _ hfirst => (Builds.many (commaExpression_builds hn)).bind
    fun _ hothers => .give ⟨hfirst, expressionsMeet_iff.mpr hothers⟩

/-- The expressions of a list that may be missing are known. -/
theorem optionalList_builds : (optionalList nested).Builds g base fun v =>
    expressionsMeet g.demands v := by
  refine (hn.expression base 0).bind fun v hv => ?_
  cases v with
  | none => exact .give trivial
  | some first =>
    exact (Builds.many (commaExpression_builds hn)).bind fun _ hothers =>
      .give ⟨hv first rfl, expressionsMeet_iff.mpr hothers⟩

/-! ## Constructors -/

/-- A field of a table is known. -/
theorem tableField_builds : (tableField nested).Builds g base
    fun v => ∀ field ∈ v, field.Meets g.demands := by
  refine .mark fun start => .consumeBegin (fun _ => ?_) ?_
  · refine (expression_builds hn).bind fun key hkey => (Builds.expect _).bind fun _ _ => ?_
    refine (Builds.expect _).bind fun _ _ => (expression_builds hn).bind fun value hvalue => ?_
    exact Builds.placed.bind fun _ hplacement => .give fun _ heq =>
      Option.some.inj heq ▸ ⟨hkey, hvalue, hplacement⟩
  · refine .current fun token _ => .read fun s _ _ => .ite (fun _ => ?_) fun _ => ?_
    · refine identifier_builds.take takes_identifier fun key hkey => ?_
      refine Builds.advance.bind fun _ _ => (expression_builds hn).bind fun value hvalue => ?_
      exact Builds.placed.bind fun _ hplacement => .give fun _ heq =>
        Option.some.inj heq ▸ ⟨hkey, hvalue, hplacement⟩
    · refine (hn.expression _ 0).find (hn.advances 0) (.give nofun) fun value hvalue => ?_
      exact Builds.placed.bind fun _ hplacement => .give fun _ heq =>
        Option.some.inj heq ▸ ⟨hvalue, hplacement⟩

theorem tableTurn_builds : (tableTurn nested).Builds g base
    fun v => ∀ field ∈ v.items, field.Meets g.demands := by
  refine (tableField_builds hn).bind fun v hv => ?_
  cases v with
  | none => exact .give (List.forall_mem_nil _)
  | some field =>
    have hfield := List.forall_mem_singleton.mpr (hv field rfl)
    refine (Builds.complete _).bind fun _ _ => .at? (fun _ => ?_) (.at? (fun _ => ?_) ?_)
    · exact Builds.advance.bind fun _ _ => .give hfield
    · exact Builds.advance.bind fun _ _ => .give hfield
    · exact .give hfield

/-- A table is known; where it began a token was taken. -/
theorem tableBody_builds : (tableBody nested start).Builds g (State.Begun g start)
    fun v => v.Meets g.demands := by
  refine (Builds.repeated (tableTurn_builds hn)).bind fun fields hfields => ?_
  refine (Builds.expect _).bind fun _ _ => Builds.placed.bind fun _ hplacement => ?_
  exact (Builds.complete _).bind fun _ _ => .give ⟨tableFieldsMeet_iff.mpr hfields, hplacement⟩

theorem makeTurn_builds : (makeTurn nested).Builds g base
    fun v => ∀ field ∈ v.items, field.Meets g.demands := by
  refine .at? (fun _ => .give (List.forall_mem_nil _)) (.mark fun start => ?_)
  refine identifier_builds.take takes_identifier fun key hkey => (Builds.expect _).bind fun _ _ => ?_
  refine (expression_builds hn).bind fun value hvalue => Builds.placed.bind fun _ hplacement => ?_
  have hfield : ∀ field ∈ [MakeField.mk key value _], field.Meets g.demands :=
    List.forall_mem_singleton.mpr ⟨hkey, hvalue, hplacement⟩
  refine (Builds.complete _).bind fun _ _ => .at? (fun _ => ?_) (.at? (fun _ => ?_) ?_)
  · exact Builds.advance.bind fun _ _ => .give hfield
  · exact Builds.advance.bind fun _ _ => .give hfield
  · exact .give hfield

/-- A structure is known where the dialect has structures. -/
theorem makeBody_builds (hfeature : g.demands.feature .hmake) :
    (makeBody nested start).Builds g (State.Begun g start) fun v => v.Meets g.demands := by
  refine identifier_builds.bind fun type htype => (Builds.expect _).bind fun _ _ => ?_
  refine (Builds.repeated (makeTurn_builds hn)).bind fun fields hfields => ?_
  refine (Builds.expect _).bind fun _ _ => Builds.placed.bind fun _ hplacement => ?_
  exact .completed ⟨hfeature, htype, makeFieldsMeet_iff.mpr hfields, hplacement⟩

/-- A primary expression is known; what it stands on is a token. -/
theorem primary_builds : (primary nested).Builds g base
    fun v => ∀ expression ∈ v, expression.Meets g.demands := by
  refine .mark fun start => .current fun token htoken => .ite (fun _ => ?_) fun _ => ?_
  · refine .read fun s _ _ => .ite (fun _ => .blame htoken _ _) fun _ => ?_
    exact literal_builds.bind fun _ hliteral => .give fun _ heq => Option.some.inj heq ▸ hliteral
  · refine .consumeBegin (fun _ => ?_) (.consumeBegin (fun _ => ?_) (.consumeBegin (fun hfeature => ?_) ?_))
    · have hname : expressionMeets? g.demands none := trivial
      refine (functionBody_builds hn hname false false).bind fun function hfunction => ?_
      have hvalue : (Expression.function function).Meets g.demands := hfunction
      exact (Builds.completed hvalue).some
    · exact (tableBody_builds hn).bind fun _ htable => .give fun _ heq => Option.some.inj heq ▸ htable
    · exact (makeBody_builds hn (hfeature _ rfl)).some
    · exact .give nofun

/-! ## Suffixes -/

/-- A call is known if what is called is. -/
theorem callArguments_builds {callee : Expression} (hcallee : callee.Meets g.demands) :
    (callArguments nested callee start).Builds g (State.Begun g start) fun v => v.Meets g.demands := by
  refine .current fun token htoken => .ite (fun _ => ?_) fun _ => .ite (fun _ => ?_) fun _ =>
    .ite (fun _ => ?_) fun _ => .demand _
  · refine .has fun flexible _ => .read fun s _ _ => .ite (fun _ => .blame htoken _ _) fun _ => ?_
    refine Builds.advance.bind fun _ _ => (optionalList_builds hn).bind fun arguments harguments => ?_
    exact (Builds.expect _).bind fun _ _ => Builds.placed.bind fun _ hplacement =>
      .completed ⟨hcallee, harguments, hplacement⟩
  · refine .markToo fun tableStart => .beginOn (fun _ => And.right) ?_
    refine ((tableBody_builds hn).on fun _ => And.right).bind fun argument hargument => ?_
    exact (Builds.placed.on fun _ hs => hs.1.1).bind fun _ hplacement =>
      .completed ⟨hcallee, hargument, hplacement⟩
  · exact literal_builds.bind fun _ hargument => Builds.placed.bind fun _ hplacement =>
      .completed ⟨hcallee, hargument, hplacement⟩

/-- A suffix is known if what it stands behind is. -/
theorem suffix_builds {operand : Expression} (hoperand : operand.Meets g.demands) :
    (suffix nested start operand).Builds g (State.Begun g start) fun v => v.Meets g.demands := by
  refine .consume ?_ (.consume ?_ (.consume ?_ (callArguments_builds hn hoperand)))
  · refine (expression_builds hn).bind fun index hindex => (Builds.expect _).bind fun _ _ => ?_
    exact Builds.placed.bind fun _ hplacement => .completed ⟨hoperand, hindex, hplacement⟩
  · exact identifier_builds.bind fun _ hname => member_builds hoperand .dot hname
  · exact identifier_builds.bind fun _ hname => (member_builds hoperand .colon hname).bind
      fun _ hmethod => callArguments_builds hn hmethod

/-- Suffixes are known if what they stand behind is. -/
theorem suffixes_builds {operand : Expression} (hoperand : operand.Meets g.demands) :
    (iterated (suffixStep nested start) operand).Builds g (State.Begun g start)
      fun v => v.Meets g.demands := by
  refine Builds.iterated (Expression.Meets g.demands) hoperand fun value hvalue => ?_
  exact .current fun token _ => .ite (fun _ => (suffix_builds hn hvalue).some) fun _ => .give nofun

/-- What stands in parentheses is known. -/
theorem parenthesised_builds : (parenthesised nested).Builds g base fun v => v.Meets g.demands :=
  (expression_builds hn).bind fun _ hinner => (Builds.expect _).bind fun _ _ => .give hinner

/-- Something with suffixes is known. -/
theorem suffixed_builds : (suffixed nested).Builds g base
    fun v => ∀ expression ∈ v, expression.Meets g.demands := by
  refine .mark fun start => .current fun token _ => .ite (fun _ => ?_) fun _ => .consumeBegin
    (fun _ => ?_) (.give nofun)
  · refine resolved_builds.take takes_resolved fun name hname => ?_
    have hfirst : (Expression.identifier name).Meets g.demands := hname
    exact (suffixes_builds hn hfirst).some
  · exact (parenthesised_builds hn).bind fun _ hinner => (suffixes_builds hn hinner).some

/-! ## Operators -/

/-- An operand is known if a place is marked where it begins. -/
theorem operand_builds : (operand nested start).Builds g (State.Marked g start)
    fun v => ∀ expression ∈ v, expression.Meets g.demands := by
  refine .current fun token htoken => ?_
  cases hoperator : UnaryOperator.ofToken? token.value with
  | some operator =>
    have hfeature : ∀ feature ∈ operator.feature?, g.demands.feature feature := by
      rw [UnaryOperator.feature?_of_token hoperator]
      exact g.word htoken
    refine .begin ((required_builds hn _).bind fun argument hargument => ?_)
    refine Builds.placed.bind fun _ hplacement => ?_
    have hvalue : (Expression.unary operator argument _).Meets g.demands :=
      ⟨hfeature, hargument, hplacement⟩
    exact (Builds.completed hvalue).some
  | none =>
    refine (primary_builds hn).bind fun v hv => ?_
    cases v with
    | none => exact suffixed_builds hn
    | some expression => exact .give hv

omit hn in
/-- Joined operands are known if both are, and the operator is one of the dialect. -/
theorem joined_meets {operator : Operator} {left right : Expression} {placement : Placement}
    (hfeature : ∀ feature ∈ operator.feature?, g.demands.feature feature)
    (hleft : left.Meets g.demands) (hright : right.Meets g.demands)
    (hplacement : g.demands.placement placement) :
    (joined operator left right placement).Meets g.demands := by
  cases operator with
  | logical operator => exact ⟨hleft, hright, hplacement⟩
  | binary operator => exact ⟨hfeature, hleft, hright, hplacement⟩

/-- A step over an operator is known if the operand on its left is. -/
theorem operatorStep_builds (level : Nat) {left : Expression} (hleft : left.Meets g.demands) :
    (operatorStep nested level start left).Builds g (State.Marked g start)
      fun v => ∀ expression ∈ v, expression.Meets g.demands := by
  refine .current fun token htoken => ?_
  cases hoperator : Operator.ofToken? token.value with
  | none => exact .give nofun
  | some operator =>
    have hfeature : ∀ feature ∈ operator.feature?, g.demands.feature feature := by
      rw [Operator.feature?_of_token hoperator]
      exact g.word htoken
    simp only
    split
    · exact .give nofun
    · refine .begin ((required_builds hn _).bind fun right hright => ?_)
      refine Builds.placed.bind fun _ hplacement => ?_
      exact (Builds.completed (joined_meets hfeature hleft hright hplacement)).some

/-- A row of operands on any level is known. -/
theorem operation_builds (level : Nat) : (operation nested level).Builds g base
    fun v => ∀ expression ∈ v, expression.Meets g.demands := by
  refine .mark fun start => (operand_builds hn).bind fun v hv => ?_
  cases v with
  | none => exact .give nofun
  | some first =>
    exact (Builds.iterated (Expression.Meets g.demands) (hv first rfl) fun _ hleft =>
      operatorStep_builds hn level hleft).some

end

end Grammar

end LuaSyntax
