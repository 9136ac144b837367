import LuaSyntax.Grammar.Expression
import LuaSyntax.Proofs.Grammar.Lockstep.Block

/-!
# Expressions side by side

The rules of expressions over nested rules are stable if the nested ones are, and their repetitions
make progress. Two of them look further than at the current token. The arguments of a call depend on
the line that the parenthesis stands on, which is part of what a sound pairing preserves. The field of
a table depends on the token ahead; where that token is not the same in both parses, whatever is made
of the field takes the first parse away.
-/

namespace LuaSyntax.Grammar

open Rule

variable {nested : Nested}

namespace Pairing

variable {P : Pairing}

/-- What has to be there is missing in both parses or in neither. -/
theorem stable_required {r r' : Rule (Option Expression)} (h : P.Stable Same r r') :
    P.Stable Same (required r) (required r') :=
  h.bindOption (stable_demand _) fun _ _ hexpression => .give hexpression

/-- Expressions are read side by side. -/
theorem stable_expression (hn : P.Fit nested) :
    P.Stable Same (expression nested) (expression nested) :=
  stable_required (hn.stable.expression 0)

variable [P.Sound]

/-- Commas and what follows them are read side by side. -/
theorem stable_commaExpression (hn : P.Fit nested) :
    P.Stable Same (commaExpression nested) (commaExpression nested) :=
  (stable_consume _).bind fun _ _ hcomma => .ite hcomma
    ((stable_expression hn).bind fun _ _ h => .give (same_some.mpr h)) (.give rfl)

end Pairing

/-- What has to be there takes nothing back. -/
theorem steady_required (hn : nested.Advances) (level : Nat) :
    (required (nested.expression level)).Steady :=
  .of_stable fun context count => Pairing.stable_required ((hn.stable context count).expression level)

/-- An expression takes nothing back. -/
theorem steady_expression (hn : nested.Advances) : (expression nested).Steady :=
  steady_required hn 0

/-- A comma that is read takes a token. -/
theorem commaExpression_advances (hn : nested.Advances) :
    (commaExpression nested).ItemAdvances := by
  refine .of_leads fun count => consume_leads (.ite (fun _ => ?_) (by simp)) (.ite (by simp) ?_)
  · exact (steady_expression hn (count + 1)).bind fun _ => .give fun _ hs _ _ => hs
  · exact fun _ => .give (by simp)

namespace Pairing

variable {P : Pairing} [P.Sound]

/-- The expressions behind the first are read side by side. -/
theorem stable_moreExpressions (hn : P.Fit nested) :
    P.Stable Same (many (commaExpression nested)) (many (commaExpression nested)) :=
  .many (stable_commaExpression hn) (hn.paced.imp_right commaExpression_advances)

/-- Lists of expressions are read side by side. -/
theorem stable_expressionList (hn : P.Fit nested) :
    P.Stable Same (expressionList nested) (expressionList nested) :=
  (stable_expression hn).bind fun _ _ hfirst => (stable_moreExpressions hn).bind
    fun _ _ hothers => .give (same_cons.mpr ⟨hfirst, hothers⟩)

/-- Lists that may be missing are read side by side. -/
theorem stable_optionalList (hn : P.Fit nested) :
    P.Stable Same (optionalList nested) (optionalList nested) :=
  (hn.stable.expression 0).bindOption (.give rfl) fun _ _ hfirst =>
    (stable_moreExpressions hn).bind fun _ _ hothers => .give (same_cons.mpr ⟨hfirst, hothers⟩)

/-! ## Constructors -/

/-- A field with a name, behind the name. -/
theorem stable_named (hn : P.Fit nested) {key key' : Identifier} (h : Same key key')
    (start start' : Place) :
    P.Stable Same
      (advance >>= fun _ => expression nested >>= fun value => placed start >>= fun placement =>
        pure (some (TableField.named key value placement)))
      (advance >>= fun _ => expression nested >>= fun value => placed start' >>= fun placement =>
        pure (some (TableField.named key' value placement))) :=
  stable_advance.bind fun _ _ _ => (stable_expression hn).bind fun _ _ hvalue =>
    (stable_placed start start').bindAny fun _ _ => .give (same_some.mpr (same_named h hvalue))

/-- Fields of tables are read side by side. -/
theorem stable_tableField (hn : P.Fit nested) :
    P.Stable Same (tableField nested) (tableField nested) := by
  refine stable_mark.bindAny fun start start' => (stable_consume _).bind fun _ _ hkey => .ite hkey
    ?_ ?_
  · exact (stable_expression hn).bind fun _ _ hindex => (stable_expect _).bind fun _ _ _ =>
      (stable_expect _).bind fun _ _ _ => (stable_expression hn).bind fun _ _ hvalue =>
        (stable_placed start start').bindAny fun _ _ =>
          .give (same_some.mpr (same_keyed hindex hvalue))
  have hnone : P.Stable Same (pure (none : Option TableField)) (pure none) := .give rfl
  have hsome (value value' : Expression) (h : Same value value') :
      P.Stable Same (placed start >>= fun place => pure (some (TableField.positional value place)))
        (placed start' >>= fun place => pure (some (TableField.positional value' place))) :=
    (stable_placed start start').bindAny fun _ _ => .give (same_some.mpr (same_positional h))
  refine Stable.choose
    (fun _ s => s.token.kind == .identifier && s.lookahead.isSymbol .assign)
    (stable_identifier.bind fun _ _ hname => stable_named hn hname start start')
    ((hn.stable.expression 0).bindOption hnone hsome) fun s t hst => ?_
  have htoken := (Sound.alike hst).token
  by_cases hkind : s.token.kind = .identifier
  · rcases hn.stable.ahead with hsame | hfails | haway
    · exact .inl (by rw [htoken.kind_eq, (hsame s t hst).isSymbol_eq])
    · -- what is nested too deep fails, with a name before it or without
      have hexpression : (nested.expression 0).Fails := fun context s =>
        (hfails 0 context s).imp fun _ h => ⟨s, h⟩
      have hnamed : (expression nested).Fails := .bind hexpression
      exact .inr ⟨.of_fails (.behind fun _ => .behind fun _ => .bind hnamed) (.bind hexpression) s t,
        .of_fails (.bind hexpression) (.behind fun _ => .behind fun _ => .bind hnamed) s t⟩
    · rcases Sound.ahead hst with hsame | he
      · exact .inl (by rw [htoken.kind_eq, hsame.isSymbol_eq])
      · refine .inr ⟨.escaped (takesName_identifier.bind (fun key =>
          (stable_named hn (.refl key) start start).escape) s hkind he),
          .escaped (escaped_bind (haway s hkind he) fun found => ?_)⟩
        cases found with
        | none => exact hnone.escape
        | some value => exact (hsome value value (.refl value)).escape
  · have hkind' : t.token.kind ≠ .identifier := fun h => hkind (htoken.kind_eq.trans h)
    exact .inl (by rw [beq_false_of_ne hkind, beq_false_of_ne hkind']; rfl)

theorem stable_tableTurn (hn : P.Fit nested) :
    P.Stable Same (tableTurn nested) (tableTurn nested) :=
  (stable_tableField hn).bindOption (.give rfl) fun _ _ hfield =>
    (stable_complete _ _).bind fun _ _ _ => (stable_at? _).bind fun _ _ hcomma =>
      (stable_at? _).bind fun _ _ hsemicolon =>
        .ite (by rw [same_bool.mp hcomma, same_bool.mp hsemicolon])
          (stable_advance.bind fun _ _ _ => .give (same_more.mpr hfield))
          (.give (same_last.mpr hfield))

/-- A field that is read takes a token. -/
theorem tableTurn_advances (hn : nested.Advances) : (tableTurn nested).TurnAdvances := by
  refine .of_leads fun count =>
    (Steady.of_stable (fun context count => stable_tableField (hn.fit context count)) count).bind
      fun found => ?_
  cases found with
  | none => exact .give (by simp)
  | some field =>
    refine (steady_complete _ count).bind fun _ => (steady_at? _ count).bind fun _ =>
      (steady_at? _ count).bind fun _ => .ite (fun _ => ?_) fun _ => .give (by simp)
    exact (takes_advance count).bind fun _ => .give fun _ hs _ _ => hs

/-- Tables are read side by side, wherever they begin. -/
theorem stable_tableBody (hn : P.Fit nested) (start start' : Place) :
    P.Stable Same (tableBody nested start) (tableBody nested start') :=
  (Stable.repeated (stable_tableTurn hn) (hn.paced.imp_right tableTurn_advances)).bind
    fun _ _ hfields => (stable_expect _).bind fun _ _ _ => (stable_placed start start').bindAny
      fun _ _ => (stable_complete _ _).bind fun _ _ _ => .give (same_table hfields)

theorem stable_makeTurn (hn : P.Fit nested) :
    P.Stable Same (makeTurn nested) (makeTurn nested) := by
  refine (stable_at? _).bind fun _ _ hclosed => .ite hclosed (.give rfl) ?_
  refine stable_mark.bindAny fun start start' => stable_identifier.bind fun _ _ hname =>
    (stable_expect _).bind fun _ _ _ => (stable_expression hn).bind fun _ _ hvalue =>
      (stable_placed start start').bindAny fun _ _ => (stable_complete _ _).bind fun _ _ _ =>
        (stable_at? _).bind fun _ _ hcomma => (stable_at? _).bind fun _ _ hsemicolon =>
          .ite (by rw [same_bool.mp hcomma, same_bool.mp hsemicolon]) ?_ ?_
  · exact stable_advance.bind fun _ _ _ => .give (same_more.mpr (same_makeField hname hvalue))
  · exact .give (same_last.mpr (same_makeField hname hvalue))

/-- A field of a structure takes a token. -/
theorem makeTurn_advances (hn : nested.Advances) : (makeTurn nested).TurnAdvances := by
  refine .of_leads fun count => (steady_at? _ count).bind fun _ =>
    .ite (fun _ => .give (by simp)) fun _ => (steady_mark count).bind fun start => ?_
  refine (takes_identifier count).bind fun key => ((takes_expect _).steady _).bind fun _ =>
    (steady_expression hn _).bind fun value =>
      (steady_placed start _).bind fun placement => (steady_complete _ _).bind fun _ =>
        (steady_at? _ _).bind fun _ => (steady_at? _ _).bind fun _ =>
          .ite (fun _ => ?_) fun _ => .give (by simp)
  exact (takes_advance.steady _).bind fun _ => .give fun _ hs _ _ => hs

/-- Structures are read side by side, wherever they begin. -/
theorem stable_makeBody (hn : P.Fit nested) (start start' : Place) :
    P.Stable Same (makeBody nested start) (makeBody nested start') :=
  stable_identifier.bind fun _ _ htype => (stable_expect _).bind fun _ _ _ =>
    (Stable.repeated (stable_makeTurn hn) (hn.paced.imp_right makeTurn_advances)).bind
      fun _ _ hfields => (stable_expect _).bind fun _ _ _ => (stable_placed start start').bindAny
        fun _ _ => stable_completed (same_make htype hfields)

/-- Primary expressions are read side by side. -/
theorem stable_primary (hn : P.Fit nested) : P.Stable Same (primary nested) (primary nested) := by
  refine stable_mark.bindAny fun start start' => stable_current.bind fun token token' h =>
    .ite (by rw [h.value_eq]) (.read fun s t hst => ?_) ?_
  · have hvararg := hst.jumps.map_eq Jumps.allowsVararg fun _ => rfl
    exact .ite (by rw [h.kind_eq, hvararg]) stable_blame (stable_literal.bind fun _ _ hliteral =>
      .give (same_some.mpr (same_literalExpression hliteral)))
  · refine (stable_consume _).bind fun _ _ hfunction => .ite hfunction ?_ ?_
    · exact (stable_functionBody hn (.refl none) false false start start').bind
        fun _ _ hfunction => (stable_completed (same_functionExpression hfunction)).bind
          fun _ _ hexpression => .give (same_some.mpr hexpression)
    · refine (stable_consume _).bind fun _ _ htable => .ite htable ?_ ?_
      · exact (stable_tableBody hn start start').bind fun _ _ htable =>
          .give (same_some.mpr (same_tableExpression htable))
      · refine (stable_consume _).bind fun _ _ hmake => .ite hmake ?_ (.give rfl)
        exact (stable_makeBody hn start start').bind fun _ _ hmake => .give (same_some.mpr hmake)

theorem steady_optionalList (hn : nested.Advances) : (optionalList nested).Steady :=
  .of_stable fun context count => stable_optionalList (hn.fit context count)

theorem steady_tableBody (hn : nested.Advances) (start : Place) : (tableBody nested start).Steady :=
  .of_stable fun context count => stable_tableBody (hn.fit context count) start start

/-! ## Suffixes -/

/-- What may begin with a parenthesis, provided it stands on the line where the token before it
ends. Only here does the line of a token count. -/
theorem stable_onLine {α : Type} {V : α → α → Prop} {r r' : Rule α} {q q' : Token → Rule α}
    (hr : P.Stable V r r')
    (hq : ∀ token token', Same token token' → P.Stable V (q token) (q' token')) :
    P.Stable V
      (current >>= fun token => if token.isSymbol .leftParen then
        has .flexibleLineEnd >>= fun flexible => state >>= fun s =>
          if !flexible && token.start.line != s.previous.stop.line then
            blame token .ambiguousCall ["("]
          else r
        else q token)
      (current >>= fun token => if token.isSymbol .leftParen then
        has .flexibleLineEnd >>= fun flexible => state >>= fun s =>
          if !flexible && token.start.line != s.previous.stop.line then
            blame token .ambiguousCall ["("]
          else r'
        else q' token) where
  escape := (stable_current (P := P)).escape.bind fun token =>
    .ite ((stable_has (P := P) _).escape.bind fun _ =>
      .read fun _ => .ite (fun _ hs => hs) hr.escape)
      (hq token token (.refl token)).escape
  meet s t hst := by
    have htoken := (Sound.alike hst).token
    show P.Meet V ((if s.token.isSymbol .leftParen then _ else _ : Rule α) P.left s)
      ((if t.token.isSymbol .leftParen then _ else _ : Rule α) P.right t)
    rw [← htoken.isSymbol_eq]
    cases hsymbol : s.token.isSymbol .leftParen
    · exact (hq _ _ htoken).meet s t hst
    · have hend : s.token.isEnd = false := by
        rw [Token.isSymbol, beq_iff_eq] at hsymbol
        rw [Token.isEnd, hsymbol]
        rfl
      show P.Meet V
        ((if !P.left.options.has .flexibleLineEnd && s.token.start.line != s.previous.stop.line
          then _ else _ : Rule α) P.left s)
        ((if !P.right.options.has .flexibleLineEnd && t.token.start.line != t.previous.stop.line
          then _ else _ : Rule α) P.right t)
      rw [ParseOptions.has, ParseOptions.has, ← Sound.dialect_eq (P := P), ← Sound.line hst hend]
      exact (Stable.ite rfl stable_blame hr).meet s t hst

/-- Calls are read side by side if what is called is the same. -/
theorem stable_callArguments (hn : P.Fit nested) {base base' : Expression} (h : Same base base')
    (start start' : Place) :
    P.Stable Same (callArguments nested base start) (callArguments nested base' start') := by
  refine stable_onLine ?_ fun token token' htoken => .ite (htoken.isSymbol_eq _) ?_
    (.ite (by rw [htoken.kind_eq]) ?_ (stable_demand _))
  · exact stable_advance.bind fun _ _ _ => (stable_optionalList hn).bind fun _ _ harguments =>
      (stable_expect _).bind fun _ _ _ => (stable_placed start start').bindAny fun _ _ =>
        stable_completed (same_call h harguments)
  · exact stable_mark.bindAny fun tableStart tableStart' => stable_advance.bind fun _ _ _ =>
      (stable_tableBody hn tableStart tableStart').bind fun _ _ htable =>
        (stable_placed start start').bindAny fun _ _ => stable_completed (same_tableCall h htable)
  · exact stable_literal.bind fun _ _ hliteral => (stable_placed start start').bindAny fun _ _ =>
      stable_completed (same_stringCall h hliteral)

/-- Whether a token begins a suffix does not depend on its place. -/
theorem startsSuffix_eq {a b : Token} (h : Same a b) : startsSuffix a = startsSuffix b := by
  rw [startsSuffix, startsSuffix, h.value_eq]

/-- Suffixes are read side by side if they stand behind the same. -/
theorem stable_suffix (hn : P.Fit nested) {base base' : Expression} (h : Same base base')
    (start start' : Place) :
    P.Stable Same (suffix nested start base) (suffix nested start' base') := by
  refine (stable_consume _).bind fun _ _ hindex => .ite hindex ?_ ?_
  · exact (stable_expression hn).bind fun _ _ hindex => (stable_expect _).bind fun _ _ _ =>
      (stable_placed start start').bindAny fun _ _ => stable_completed (same_index h hindex)
  · refine (stable_consume _).bind fun _ _ hdot => .ite hdot ?_ ?_
    · exact stable_identifier.bind fun _ _ hname => stable_member h .dot hname start start'
    · refine (stable_consume _).bind fun _ _ hcolon => .ite hcolon ?_
        (stable_callArguments hn h start start')
      exact stable_identifier.bind fun _ _ hname => (stable_member h .colon hname start start').bind
        fun _ _ hmethod => stable_callArguments hn hmethod start start'

theorem stable_suffixStep (hn : P.Fit nested) {base base' : Expression} (h : Same base base')
    (start start' : Place) :
    P.Stable Same (suffixStep nested start base) (suffixStep nested start' base') :=
  stable_current.bind fun _ _ htoken => .ite (startsSuffix_eq htoken)
    ((stable_suffix hn h start start').bind fun _ _ hsuffix => .give (same_some.mpr hsuffix))
    (.give rfl)

/-- The arguments of a call take a token. -/
theorem takes_callArguments (hn : nested.Advances) (base : Expression) (start : Place) :
    (callArguments nested base start).Takes := by
  refine steady_current.bind fun token => .ite ?_ (.ite ?_ (.ite ?_ (.of_fails fun _ _ => ⟨_, rfl⟩)))
  · refine (steady_has _).bind fun _ => .read fun _ => .ite (.of_fails (fails_blame _ _ _)) ?_
    exact takes_advance.bind fun _ => (steady_optionalList hn).andThen fun _ =>
      (takes_expect _).steady.andThen fun _ => (steady_placed start).andThen fun _ =>
        steady_completed _
  · exact steady_mark.bind fun tableStart => takes_advance.bind fun _ =>
      (steady_tableBody hn tableStart).andThen fun _ => (steady_placed start).andThen fun _ =>
        steady_completed _
  · exact takes_literal.bind fun _ => (steady_placed start).andThen fun _ => steady_completed _

/-- A suffix takes a token. -/
theorem takes_suffix (hn : nested.Advances) (start : Place) (base : Expression) :
    (suffix nested start base).Takes := by
  refine .consume ?_ (.consume ?_ (.consume ?_ (takes_callArguments hn base start)))
  · exact (steady_expression hn).andThen fun _ => (takes_expect _).steady.andThen fun _ =>
      (steady_placed start).andThen fun _ => steady_completed _
  · exact takes_identifier.steady.andThen fun _ => steady_member _ _ _ _
  · exact takes_identifier.steady.andThen fun _ => (steady_member _ _ _ _).andThen fun method =>
      (takes_callArguments hn method start).steady

/-- A step over a suffix takes a token. -/
theorem suffixStep_advances (hn : nested.Advances) (start : Place) (base : Expression) :
    (suffixStep nested start base).ItemAdvances := by
  refine .of_leads fun count => (steady_current count).bind fun token => .ite (fun _ => ?_)
    fun _ => .give (by simp)
  exact (takes_suffix hn start base count).bind fun _ => .give fun _ hs _ _ => hs

/-! ## Operands -/

/-- Rows of suffixes are read side by side if they stand behind the same. -/
theorem stable_suffixes (hn : P.Fit nested) {base base' : Expression} (h : Same base base')
    (start start' : Place) :
    P.Stable Same (iterated (suffixStep nested start) base)
      (iterated (suffixStep nested start') base') :=
  .iterated (fun _ _ h => stable_suffixStep hn h start start')
    (hn.paced.imp_right fun hadvance base => suffixStep_advances hadvance start base) h

/-- What stands in parentheses is read side by side. -/
theorem stable_parenthesised (hn : P.Fit nested) :
    P.Stable Same (parenthesised nested) (parenthesised nested) :=
  (stable_expression hn).bind fun _ _ hinner => (stable_expect _).bind fun _ _ _ => .give hinner

/-- A row of suffixes takes nothing back. -/
theorem steady_suffixes (hn : nested.Advances) (base : Expression) (start : Place) :
    (iterated (suffixStep nested start) base).Steady :=
  .of_stable fun context count => stable_suffixes (hn.fit context count) (.refl base) start start

theorem steady_parenthesised (hn : nested.Advances) : (parenthesised nested).Steady :=
  .of_stable fun context count => stable_parenthesised (hn.fit context count)

/-- Things with suffixes are read side by side. -/
theorem stable_suffixed (hn : P.Fit nested) : P.Stable Same (suffixed nested) (suffixed nested) := by
  refine stable_mark.bindAny fun start start' => stable_current.bind fun _ _ htoken =>
    .ite (by rw [htoken.kind_eq]) ?_ ?_
  · exact stable_resolved.bind fun _ _ hname =>
      (stable_suffixes hn (same_nameExpression hname) start start').bind fun _ _ hexpression =>
        .give (same_some.mpr hexpression)
  · refine (stable_consume _).bind fun _ _ hparen => .ite hparen ?_ (.give rfl)
    exact (stable_parenthesised hn).bind fun _ _ hinner =>
      (stable_suffixes hn hinner start start').bind fun _ _ hexpression =>
        .give (same_some.mpr hexpression)

/-- Where a name stands, something with suffixes takes it. -/
theorem takesName_suffixed (hn : P.Fit nested) : P.TakesName (suffixed nested) := by
  intro s hs he
  show P.Escaped ((if s.token.kind == .identifier then _ else _ : Rule (Option Expression)) P.left s).2
  rw [hs]
  exact takesName_resolved.bind (fun name =>
    (stable_suffixes hn (.refl (.identifier name)) s.token.start s.token.start).escape.bind
      fun _ => .give _) s hs he

/-! ## Operators -/

/-- No operand of that kind begins with a name. -/
theorem primary_of_name {context : Context} {s : State} (hs : s.token.kind = .identifier) :
    primary nested context s = (.ok none, s) := by
  obtain ⟨name, hvalue⟩ := Token.value_of_kind hs
  have hconsume (terminal : Terminal) : consume terminal context s = (.ok false, s) := by
    have hother : (s.token.value == terminal.value) = false := by
      rw [hvalue]
      cases terminal <;> rfl
    simp only [consume, at?, current, state, Bind.bind, Pure.pure, andThen, give, hother]
    rfl
  simp only [primary, mark, current, state, Bind.bind, Pure.pure, andThen, give, hvalue,
    literalValue?, Option.isSome_none, Bool.false_eq_true, if_false, hconsume]

/-- Operands are read side by side, wherever they begin. -/
theorem stable_operand (hn : P.Fit nested) (start start' : Place) :
    P.Stable Same (operand nested start) (operand nested start') := by
  refine stable_current.bind fun token token' htoken => ?_
  rw [htoken.value_eq]
  cases UnaryOperator.ofToken? token'.value with
  | some operator =>
    exact stable_advance.bind fun _ _ _ => (stable_required (hn.stable.expression _)).bind
      fun _ _ hargument => (stable_placed start start').bindAny fun _ _ =>
        (stable_completed (same_unary operator hargument)).bind fun _ _ hexpression =>
          .give (same_some.mpr hexpression)
  | none =>
    exact (stable_primary hn).bindOption (stable_suffixed hn) fun _ _ hexpression =>
      .give (same_some.mpr hexpression)

/-- Where a name stands, an operand takes it. -/
theorem takesName_operand (hn : P.Fit nested) (start : Place) : P.TakesName (operand nested start) := by
  intro s hs he
  obtain ⟨name, hvalue⟩ := Token.value_of_kind hs
  have hprimary : primary nested P.left s = (.ok none, s) := primary_of_name hs
  have hoperand : operand nested start P.left s = suffixed nested P.left s := by
    simp only [operand, current, state, hvalue, UnaryOperator.ofToken?, Bind.bind, Pure.pure, andThen,
      give, hprimary]
  rw [hoperand]
  exact takesName_suffixed hn s hs he

/-- Operands that are the same are joined to the same. -/
theorem same_joined (operator : Operator) {left left' right right' : Expression}
    (hleft : Same left left') (hright : Same right right') (placement placement' : Placement) :
    Same (joined operator left right placement) (joined operator left' right' placement') := by
  cases operator with
  | logical known => exact same_logical known hleft hright
  | binary known => exact same_binary known hleft hright

/-- Operators are read side by side if the operands on their left are the same. -/
theorem stable_operatorStep (hn : P.Fit nested) (level : Nat) {left left' : Expression}
    (h : Same left left') (start start' : Place) :
    P.Stable Same (operatorStep nested level start left) (operatorStep nested level start' left') := by
  refine stable_current.bind fun token token' htoken => ?_
  rw [htoken.value_eq]
  cases Operator.ofToken? token'.value with
  | none => exact .give rfl
  | some operator =>
    show P.Stable Same (if operator.level ≤ level then _ else _) (if operator.level ≤ level then _ else _)
    split
    · exact .give rfl
    · exact stable_advance.bind fun _ _ _ => (stable_required (hn.stable.expression _)).bind
        fun _ _ hright => (stable_placed start start').bindAny fun _ _ =>
          (stable_completed (same_joined operator h hright _ _)).bind fun _ _ hexpression =>
            .give (same_some.mpr hexpression)

/-- A step over an operator takes a token. -/
theorem operatorStep_advances (hn : nested.Advances) (level : Nat) (start : Place)
    (left : Expression) : (operatorStep nested level start left).ItemAdvances := by
  refine .of_leads fun count => (steady_current count).bind fun token => ?_
  cases Operator.ofToken? token.value with
  | none => exact .give (by simp)
  | some operator =>
    show Leads (if operator.level ≤ level then _ else _) _ _
    split
    · exact .give (by simp)
    · exact (takes_advance count).bind fun _ => (steady_required hn _ _).bind fun _ =>
        (steady_placed start _).bind fun _ => (steady_completed _ _).bind fun _ =>
          .give fun _ hs _ _ => hs

/-- Rows of operands are read side by side. -/
theorem stable_operation (hn : P.Fit nested) (level : Nat) :
    P.Stable Same (operation nested level) (operation nested level) :=
  stable_mark.bindAny fun start start' => (stable_operand hn start start').bindOption (.give rfl)
    fun _ _ hfirst =>
      (Stable.iterated (fun _ _ h => stable_operatorStep hn level h start start')
        (hn.paced.imp_right fun hadvance left => operatorStep_advances hadvance level start left)
        hfirst).bind fun _ _ hexpression => .give (same_some.mpr hexpression)

/-- Where a name stands, a row of operands takes it. -/
theorem takesName_operation (hn : P.Fit nested) (level : Nat) :
    P.TakesName (operation nested level) := by
  intro s hs he
  refine (takesName_operand hn s.token.start).bind (fun found => ?_) s hs he
  cases found with
  | none => exact .give none
  | some first =>
    refine Stays.bind (Stable.iterated (fun _ _ h => stable_operatorStep hn level h _ s.token.start)
      (hn.paced.imp_right fun hadvance left => operatorStep_advances hadvance level _ left)
      (.refl first)).escape fun _ => .give _

end Pairing

/-! ## What takes a token -/

/-- A primary expression takes a token if there is one. -/
theorem primary_advances (hn : nested.Advances) : (primary nested).ItemAdvances := by
  refine .of_leads fun count => (steady_mark count).bind fun start => (steady_current count).bind
    fun token => .ite (fun _ => ?_) fun _ => ?_
  · intro context s
    refine Leads.ite (fun _ => .of_fails fun _ t => ⟨_, t, rfl⟩) (fun _ => ?_) context s
    exact (takes_literal count).bind fun _ => .give fun _ hs _ _ => hs
  · refine consume_leads (.ite (fun _ => ?_) (by simp)) (.ite (by simp) fun _ => ?_)
    · have hbody : (functionBody nested none false false start).Steady := .of_stable
        fun context count => Pairing.stable_functionBody (hn.fit context count) (.refl none) false
          false start start
      exact (hbody _).bind fun _ => (steady_completed _ _).bind fun _ => .give fun _ hs _ _ => hs
    · refine consume_leads (.ite (fun _ => ?_) (by simp)) (.ite (by simp) fun _ => ?_)
      · exact (Pairing.steady_tableBody hn start _).bind fun _ => .give fun _ hs _ _ => hs
      · refine consume_leads (.ite (fun _ => ?_) (by simp)) (.ite (by simp) fun _ => .give (by simp))
        have hbody : (makeBody nested start).Steady := .of_stable fun context count =>
          Pairing.stable_makeBody (hn.fit context count) start start
        exact (hbody _).bind fun _ => .give fun _ hs _ _ => hs

/-- Something with suffixes takes a token if there is one. -/
theorem suffixed_advances (hn : nested.Advances) : (suffixed nested).ItemAdvances := by
  refine .of_leads fun count => (steady_mark count).bind fun start => (steady_current count).bind
    fun token => .ite (fun _ => ?_) fun _ =>
      consume_leads (.ite (fun _ => ?_) (by simp)) (.ite (by simp) fun _ => .give (by simp))
  · exact (takes_resolved count).bind fun _ => (Pairing.steady_suffixes hn _ start _).bind
      fun _ => .give fun _ hs _ _ => hs
  · exact (Pairing.steady_parenthesised hn _).bind fun _ =>
      (Pairing.steady_suffixes hn _ start _).bind fun _ => .give fun _ hs _ _ => hs

/-- An operand takes a token if there is one. -/
theorem operand_advances (hn : nested.Advances) (start : Place) :
    (operand nested start).ItemAdvances := by
  refine .of_leads fun count => (steady_current count).bind fun token => ?_
  cases UnaryOperator.ofToken? token.value with
  | some operator =>
    exact (takes_advance count).bind fun _ => (steady_required hn _ _).bind fun _ =>
      (steady_placed start _).bind fun _ => (steady_completed _ _).bind fun _ =>
        .give fun _ hs _ _ => hs
  | none =>
    have hprimary : (primary nested).Steady := .of_stable fun context count =>
      Pairing.stable_primary (hn.fit context count)
    refine ((hprimary count).and ((primary_advances hn).leads count)).bind fun found => ?_
    cases found with
    | none => exact ((suffixed_advances hn).leads count).mono (fun _ hs => hs.1) fun _ _ hs => hs
    | some expression => exact .give fun _ hs _ _ => hs.2 _ rfl

/-- A row of operands takes a token if there is one. -/
theorem operation_advances (hn : nested.Advances) (level : Nat) :
    (operation nested level).ItemAdvances := by
  refine .of_leads fun count => (steady_mark count).bind fun start =>
    ((operand_advances hn start).leads count).bind fun found => ?_
  cases found with
  | none => exact .give (by simp)
  | some first =>
    have hoperators : (iterated (operatorStep nested level start) first).Steady := .of_stable
      fun context count => Pairing.Stable.iterated (P := Pairing.diagonal context (State.Past count))
        (fun _ _ h => Pairing.stable_operatorStep (hn.fit context count) level h start start)
        (.inr fun left => Pairing.operatorStep_advances hn level start left) (.refl first)
    exact ((hoperators (count + 1)).mono (fun _ hs => hs _ rfl) fun _ _ hs => hs).bind fun _ =>
      .give fun _ hs _ _ => hs

end LuaSyntax.Grammar
