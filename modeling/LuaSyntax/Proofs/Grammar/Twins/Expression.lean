import LuaSyntax.Grammar.Expression
import LuaSyntax.Proofs.Grammar.Twins.Block

/-!
# Expressions in twins

An expression finds neither gotos nor labels, since functions keep theirs. If only the second parse fails in
a function then the first tells an observer of the function as soon as it is complete.
-/

namespace LuaSyntax.Grammar

open Rule

namespace Twins

variable {T : Twins} [T.Sound] {nested nested' : Nested}

theorem stable_required {r r' : Rule (Option Expression)} (h : T.Stable r r') :
    T.Stable (required r) (required r') :=
  h.bindOption (.demand _) fun _ _ hexpression => .give hexpression

/-- A function that is an expression. -/
theorem stable_functionExpression (hn : T.Fit nested nested') (start : Place) : T.Stable
    (functionBody nested none false false start >>= fun function =>
      completed (.function function) >>= fun expression => pure (some expression))
    (functionBody nested' none false false start >>= fun function =>
      completed (.function function) >>= fun expression => pure (some expression)) := by
  refine .of_runs fun since found => (runs_functionBody hn (.refl none) false false start).behind ?_ ?_
  · exact fun function function' hfunction => (stable_completed (akin_functionExpression hfunction)).before
      fun _ _ hexpression => .give (akin_some.mpr hexpression) fun _ hs => hs
  · intro function error s u t hblames hrun
    cases hrun
    exact .inr ⟨function, .inl List.mem_cons_self, hblames⟩

section

variable (hn : T.Fit nested nested')

include hn

theorem stable_expression : T.Stable (expression nested) (expression nested') :=
  stable_required (hn.expression 0)

theorem stable_commaExpression : T.Stable (commaExpression nested) (commaExpression nested') :=
  .consume ((stable_expression hn).bind fun _ _ h => .give (akin_some.mpr h)) (.give rfl)

theorem stable_expressionList : T.Stable (expressionList nested) (expressionList nested') :=
  (stable_expression hn).bind fun _ _ hfirst => (Stable.many (stable_commaExpression hn)).bind
    fun _ _ hothers => .give (akin_cons.mpr ⟨hfirst, hothers⟩)

theorem stable_optionalList : T.Stable (optionalList nested) (optionalList nested') :=
  (hn.expression 0).bindOption (.give rfl) fun _ _ hfirst =>
    (Stable.many (stable_commaExpression hn)).bind fun _ _ hothers =>
      .give (akin_cons.mpr ⟨hfirst, hothers⟩)

/-! ## Constructors -/

theorem stable_tableField : T.Stable (tableField nested) (tableField nested') := by
  refine .mark fun start => .consume ?_ (.current fun token => ?_)
  · exact (stable_expression hn).bind fun _ _ hindex => (Stable.expect _).bind fun _ _ _ =>
      (Stable.expect _).bind fun _ _ _ => (stable_expression hn).bind fun _ _ hvalue =>
        (stable_placed start).bind fun _ _ hplacement =>
          .give (akin_some.mpr (akin_keyed hplacement hindex hvalue))
  refine .read fun s t hst => ?_
  rw [hst.lookahead]
  refine .ite ?_ ?_
  · exact stable_identifier.bind fun _ _ hname => Stable.advance.bind fun _ _ _ =>
      (stable_expression hn).bind fun _ _ hvalue => (stable_placed start).bind fun _ _ hplacement =>
        .give (akin_some.mpr (akin_named hplacement hname hvalue))
  · exact (hn.expression 0).bindOption (.give rfl) fun _ _ hvalue => (stable_placed start).bind
      fun _ _ hplacement => .give (akin_some.mpr (akin_positional hplacement hvalue))

theorem stable_tableTurn : T.Stable (tableTurn nested) (tableTurn nested') :=
  (stable_tableField hn).bindOption (.give rfl) fun _ _ hfield => (stable_complete _ _).bind fun _ _ _ =>
    .at? fun _ => .at? fun _ => .ite (Stable.advance.bind fun _ _ _ => .give (akin_more.mpr hfield))
      (.give (akin_last.mpr hfield))

theorem stable_tableBody (start : Place) : T.Stable (tableBody nested start) (tableBody nested' start) :=
  (Stable.repeated (stable_tableTurn hn)).bind fun _ _ hfields => (Stable.expect _).bind fun _ _ _ =>
    (stable_placed start).bind fun _ _ hplacement => (stable_complete _ _).bind fun _ _ _ =>
      .give (akin_table hplacement hfields)

theorem stable_makeTurn : T.Stable (makeTurn nested) (makeTurn nested') := by
  refine .at? fun _ => .ite (.give rfl) (.mark fun start => ?_)
  refine stable_identifier.bind fun _ _ hname => (Stable.expect _).bind fun _ _ _ =>
    (stable_expression hn).bind fun _ _ hvalue => (stable_placed start).bind fun _ _ hplacement =>
      (stable_complete _ _).bind fun _ _ _ => .at? fun _ => .at? fun _ => .ite ?_ ?_
  · exact Stable.advance.bind fun _ _ _ => .give (akin_more.mpr (akin_makeField hplacement hname hvalue))
  · exact .give (akin_last.mpr (akin_makeField hplacement hname hvalue))

theorem stable_makeBody (start : Place) : T.Stable (makeBody nested start) (makeBody nested' start) :=
  stable_identifier.bind fun _ _ htype => (Stable.expect _).bind fun _ _ _ =>
    (Stable.repeated (stable_makeTurn hn)).bind fun _ _ hfields => (Stable.expect _).bind fun _ _ _ =>
      (stable_placed start).bind fun _ _ hplacement => stable_completed (akin_make hplacement htype hfields)

theorem stable_primary : T.Stable (primary nested) (primary nested') := by
  refine .mark fun start => .current fun token => .ite ?_ ?_
  · refine .read fun s t hst => ?_
    rw [hst.allowsVararg]
    exact .ite (.blame _ _ _) (stable_literal.bind fun _ _ hliteral =>
      .give (akin_some.mpr (akin_literalExpression hliteral)))
  · refine .consume (stable_functionExpression hn start) (.consume ?_ (.consume ?_ (.give rfl)))
    · exact (stable_tableBody hn start).bind fun _ _ htable =>
        .give (akin_some.mpr (akin_tableExpression htable))
    · exact (stable_makeBody hn start).bind fun _ _ hmake => .give (akin_some.mpr hmake)

/-! ## Suffixes -/

theorem stable_callArguments {base base' : Expression} (h : Akin T.erasure base base') (start : Place) :
    T.Stable (callArguments nested base start) (callArguments nested' base' start) := by
  refine .current fun token => .ite ?_ (.ite ?_ (.ite ?_ (.demand _)))
  · refine .has (by decide) fun flexible => .read fun s t hst => ?_
    rw [hst.previous]
    refine .ite (.blame _ _ _) ?_
    exact Stable.advance.bind fun _ _ _ => (stable_optionalList hn).bind fun _ _ harguments =>
      (Stable.expect _).bind fun _ _ _ => (stable_placed start).bind fun _ _ hplacement =>
        stable_completed (akin_call hplacement h harguments)
  · exact .mark fun tableStart => Stable.advance.bind fun _ _ _ => (stable_tableBody hn tableStart).bind
      fun _ _ htable => (stable_placed start).bind fun _ _ hplacement =>
        stable_completed (akin_tableCall hplacement h htable)
  · exact stable_literal.bind fun _ _ hliteral => (stable_placed start).bind fun _ _ hplacement =>
      stable_completed (akin_stringCall hplacement h hliteral)

theorem stable_suffix {base base' : Expression} (h : Akin T.erasure base base') (start : Place) :
    T.Stable (suffix nested start base) (suffix nested' start base') := by
  refine .consume ?_ (.consume ?_ (.consume ?_ (stable_callArguments hn h start)))
  · exact (stable_expression hn).bind fun _ _ hindex => (Stable.expect _).bind fun _ _ _ =>
      (stable_placed start).bind fun _ _ hplacement => stable_completed (akin_index hplacement h hindex)
  · exact stable_identifier.bind fun _ _ hname => stable_member h .dot hname start
  · exact stable_identifier.bind fun _ _ hname => (stable_member h .colon hname start).bind
      fun _ _ hmethod => stable_callArguments hn hmethod start

theorem stable_suffixStep {base base' : Expression} (h : Akin T.erasure base base') (start : Place) :
    T.Stable (suffixStep nested start base) (suffixStep nested' start base') :=
  .current fun _ => .ite
    ((stable_suffix hn h start).bind fun _ _ hsuffix => .give (akin_some.mpr hsuffix)) (.give rfl)

theorem stable_suffixes {base base' : Expression} (h : Akin T.erasure base base') (start : Place) :
    T.Stable (iterated (suffixStep nested start) base) (iterated (suffixStep nested' start) base') :=
  .iterated (fun _ _ h => stable_suffixStep hn h start) h

theorem stable_parenthesised : T.Stable (parenthesised nested) (parenthesised nested') :=
  (stable_expression hn).bind fun _ _ hinner => (Stable.expect _).bind fun _ _ _ => .give hinner

theorem stable_suffixed : T.Stable (suffixed nested) (suffixed nested') := by
  refine .mark fun start => .current fun token => .ite ?_ (.consume ?_ (.give rfl))
  · exact stable_resolved.bind fun _ _ hname => (stable_suffixes hn (akin_nameExpression hname) start).bind
      fun _ _ hexpression => .give (akin_some.mpr hexpression)
  · exact (stable_parenthesised hn).bind fun _ _ hinner => (stable_suffixes hn hinner start).bind
      fun _ _ hexpression => .give (akin_some.mpr hexpression)

/-! ## Operators -/

theorem stable_operand (start : Place) : T.Stable (operand nested start) (operand nested' start) := by
  refine .current fun token => ?_
  cases UnaryOperator.ofToken? token.value with
  | some operator =>
    exact Stable.advance.bind fun _ _ _ => (stable_required (hn.expression _)).bind fun _ _ hargument =>
      (stable_placed start).bind fun _ _ hplacement =>
        (stable_completed (akin_unary hplacement operator hargument)).bind fun _ _ hexpression =>
          .give (akin_some.mpr hexpression)
  | none =>
    exact (stable_primary hn).bindOption (stable_suffixed hn) fun _ _ hexpression =>
      .give (akin_some.mpr hexpression)

omit [T.Sound] hn in
/-- Joined operands are akin if both are. -/
theorem akin_joined {left left' right right' : Expression} {placement placement' : Placement}
    (hplacement : Akin T.erasure placement placement') (operator : Operator)
    (hleft : Akin T.erasure left left') (hright : Akin T.erasure right right') :
    Akin T.erasure (joined operator left right placement) (joined operator left' right' placement') := by
  cases operator with
  | logical known => exact akin_logical hplacement known hleft hright
  | binary known => exact akin_binary hplacement known hleft hright

theorem stable_operatorStep (level : Nat) {left left' : Expression} (h : Akin T.erasure left left')
    (start : Place) :
    T.Stable (operatorStep nested level start left) (operatorStep nested' level start left') := by
  refine .current fun token => ?_
  cases Operator.ofToken? token.value with
  | none => exact .give rfl
  | some operator =>
    show T.Stable (if operator.level ≤ level then _ else _) (if operator.level ≤ level then _ else _)
    split
    · exact .give rfl
    · exact Stable.advance.bind fun _ _ _ => (stable_required (hn.expression _)).bind fun _ _ hright =>
        (stable_placed start).bind fun _ _ hplacement =>
          (stable_completed (akin_joined hplacement operator h hright)).bind fun _ _ hexpression =>
            .give (akin_some.mpr hexpression)

theorem stable_operation (level : Nat) : T.Stable (operation nested level) (operation nested' level) :=
  .mark fun start => (stable_operand hn start).bindOption (.give rfl) fun _ _ hfirst =>
    (Stable.iterated (fun _ _ h => stable_operatorStep hn level h start) hfirst).bind
      fun _ _ hexpression => .give (akin_some.mpr hexpression)

end

end Twins

end LuaSyntax.Grammar
