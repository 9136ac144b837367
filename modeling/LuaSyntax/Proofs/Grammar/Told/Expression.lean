import LuaSyntax.Grammar.Expression
import LuaSyntax.Proofs.Grammar.Told.Block

/-!
# Expressions that are told of

An expression is told of when its last token is taken. What is chained to it then, such as a suffix or an
operator with its right operand, makes it the first part of another expression that began where it did.
-/

namespace LuaSyntax.Grammar

open Rule

variable {context : Context} {origin : State} {items : List Item} {begun : Bool} {nested : Nested}

/-- An expression that was told of has taken a token. -/
theorem Underway.begun_of_expression {expression : Expression} {s : State}
    (h : Underway context origin begun [expression.item] s) :
    Underway context origin true [expression.item] s := by
  obtain ⟨node, hnode⟩ : ∃ node, expression.item = .node node := by cases expression <;> exact ⟨_, rfl⟩
  rw [hnode] at h ⊢
  exact h.begun_of_node List.mem_cons_self

section

variable (hn : nested.Tells)

include hn

/-- What has to be there is told of where it is. -/
theorem required_tells (level : Nat) : (required (nested.expression level)).Tells fun v => [v.item] := by
  refine .of_runs fun context origin => (hn.expression level).bind fun v => ?_
  cases v with
  | none => exact .demand _
  | some expression => exact .give fun _ hs => hs.told

/-- Expressions are told of when they are complete. -/
theorem expression_tells : (expression nested).Tells fun v => [v.item] := required_tells hn 0

/-- What stands behind a comma is told of, if a comma stands there. -/
theorem commaExpression_tells : (commaExpression nested).Tells
    fun v => v.toList.map Expression.item := by
  refine .of_runs fun context origin => .consume ((expression_tells hn).bind fun v => ?_) ?_
  · exact .give fun _ hs => hs.told
  · exact .give fun _ hs => hs.told

/-- The expressions of a list are told of in their order. -/
theorem expressionList_tells : (expressionList nested).Tells fun v => v.map Expression.item := by
  refine .of_runs fun context origin => (expression_tells hn).bind fun first => ?_
  refine (Tells.many (commaExpression_tells hn)).bind fun others => .give fun _ hs => hs.told

/-- A list that may be missing is told of if it is not. -/
theorem optionalList_tells : (optionalList nested).Tells fun v => v.map Expression.item := by
  refine .of_runs fun context origin => (hn.expression 0).bind fun v => ?_
  cases v with
  | none => exact .give fun _ hs => hs.told
  | some first =>
    exact (Tells.many (commaExpression_tells hn)).bind fun others => .give fun _ hs => hs.told

/-! ## Constructors -/

/-- What a field leads to. It is told of by who asked for it. -/
def FieldEnds (context : Context) (origin : State) (field : Option TableField) (s : State) : Prop :=
  match field with
  | none => Told context origin [] s
  | some field => Ended context origin (.tableField field) s

/-- A field of a table is told of behind its key and its value. -/
theorem tableField_runs : (tableField nested).Runs context origin (· = origin)
    (FieldEnds context origin) := by
  refine .mark (.consume ?_ ?_)
  · refine (expression_tells hn).bind fun key => (Runs.expect _).bind fun _ => (Runs.expect _).bind fun _ => ?_
    refine (expression_tells hn).bind fun value => ?_
    have hitems (placement : Placement) :
      (Node.tableField (.keyed key value placement)).items = [key.item, value.item] := rfl
    exact .ended hitems (fun _ => rfl) fun _ _ hs => hs
  · refine .current fun _ hs => .read fun s heq => ?_
    subst heq
    refine .ite (fun hnamed => ?_) fun _ => ?_
    · have hkey : identifier.Runs context origin (· = s) fun v u =>
          Underway context origin false [v.item] u ∧ u.token = s.lookahead :=
        (identifier_tells.runsAt hs).also fun _ _ _ heq hrun => heq ▸ (identifier_eq_ok hrun).2
      refine hkey.bind fun key => ?_
      have hassign : s.lookahead.value = .punctuator .assign := by
        simpa [Token.isSymbol] using (Bool.and_eq_true_iff.mp hnamed).2
      have hadvance : ∀ u, Underway context origin false [key.item] u ∧ u.token = s.lookahead →
          Underway context origin false [key.item] u ∧ u.token.isEnd = false := by
        rintro u ⟨hu, htoken⟩
        refine ⟨hu, isEnd_eq_false ?_⟩
        rw [htoken, hassign]
        exact fun heq => TokenValue.noConfusion heq
      refine (Runs.advance hadvance).bind fun _ => (expression_tells hn).bind fun value => ?_
      have hitems (placement : Placement) :
        (Node.tableField (.named key value placement)).items = [key.item, value.item] := rfl
      exact .ended hitems (fun _ => rfl) fun _ _ hs => hs
    · refine ((hn.expression 0).runsAt hs).bind fun v => ?_
      cases v with
      | none => exact .give fun _ hs => hs.told
      | some value =>
        have hitems (placement : Placement) :
          (Node.tableField (.positional value placement)).items = [value.item] := rfl
        have hplaced : (placed origin.token.start >>= fun placement =>
            pure (some (.positional value placement)) : Rule (Option TableField)).Runs context origin
            (Underway context origin true [value.item]) (FieldEnds context origin) :=
          .ended hitems (fun _ => rfl) fun _ _ hs => hs
        exact hplaced.since fun _ hs => Underway.begun_of_expression hs

/-- A turn of a table tells of its field. -/
theorem tableTurn_tells : (tableTurn nested).Tells
    fun v => v.items.flatMap fun field => [.node (.tableField field)] := by
  refine fun context origin => (tableField_runs hn).bind fun v => ?_
  cases v with
  | none => exact .give fun _ hs => hs
  | some field =>
    refine (Runs.complete rfl).bind fun _ => .at? ?_ (.at? ?_ ?_)
    · exact (Runs.advance fun _ hs => hs).bind fun _ => .give fun _ hs => hs.told
    · exact (Runs.advance fun _ hs => hs).bind fun _ => .give fun _ hs => hs.told
    · exact .give fun _ hs => hs.told

/-- A table is told of behind its fields. -/
theorem tableBody_runs : (tableBody nested origin.token.start).Runs context origin
    (Underway context origin true []) fun v => Underway context origin true [.node (.table v)] := by
  refine (Tells.repeated (tableTurn_tells hn)).bind fun fields => (Runs.expect _).bind fun _ => ?_
  refine .node (fun _ => List.map_eq_flatMap) (fun _ => rfl) (fun _ => rfl) fun _ => .give fun _ hs => hs

/-- A turn of a structure tells of its field. -/
theorem makeTurn_tells : (makeTurn nested).Tells
    fun v => v.items.flatMap fun field => [.node (.makeField field)] := by
  refine fun context origin => .at? (.give fun s hs => hs.1 ▸ .nothing _) (.mark ?_)
  refine identifier_tells.bind fun key => (Runs.expect _).bind fun _ => ?_
  refine (expression_tells hn).bind fun value => .node (fun _ => rfl) (fun _ => rfl) (fun _ => rfl) ?_
  refine fun placement => .at? ?_ (.at? ?_ ?_)
  · exact (Runs.advance fun _ hs => hs).bind fun _ => .give fun _ hs => hs.told
  · exact (Runs.advance fun _ hs => hs).bind fun _ => .give fun _ hs => hs.told
  · exact .give fun _ hs => hs.told

/-- A structure is told of behind its fields. -/
theorem makeBody_runs : (makeBody nested origin.token.start).Runs context origin
    (Underway context origin true []) fun v => Underway context origin true [v.item] := by
  refine identifier_tells.bind fun type => (Runs.expect _).bind fun _ => ?_
  refine (Tells.repeated (makeTurn_tells hn)).bind fun fields => (Runs.expect _).bind fun _ => ?_
  exact .expression (fun _ => congrArg (type.item :: ·) List.map_eq_flatMap) (fun _ => rfl) fun _ => rfl

/-- A primary expression is told of, if there is one. -/
theorem primary_tells : (primary nested).Tells fun v => v.toList.map Expression.item := by
  refine fun context origin => .mark (.glance fun token => .ite (fun _ => ?_) fun _ => ?_)
  · refine .look fun s => .ite (fun _ => .blame _ _ _) fun _ => literal_tells.bind fun leaf => ?_
    exact .give fun _ hs => hs.told
  · refine .consume ?_ (.consume ?_ (.consume ?_ (.give fun _ hs => hs.told)))
    · refine (functionBody_runs hn false false (fun function => .expression (.function function))
        (fun _ => rfl) fun _ _ _ _ _ => rfl).bind fun function => ?_
      exact (Runs.completed rfl).bind fun v => .give fun _ hs => hs.told
    · exact (tableBody_runs hn).bind fun table => .give fun _ hs => hs.told
    · exact (makeBody_runs hn).bind fun value => .give fun _ hs => hs.told

/-! ## Suffixes -/

omit hn in
/-- A symbol is not the end of the input. -/
theorem isEnd_of_symbol {token : Token} {symbol : Symbol} (h : token.isSymbol symbol = true) :
    token.isEnd = false := by
  refine isEnd_eq_false ?_
  rw [beq_iff_eq.mp h]
  exact nofun

/-- A table that begins in a call is a node of its own. -/
theorem bracedTable_runs {s : State} (hend : s.token.isEnd = false) :
    (mark >>= fun start => advance >>= fun _ => tableBody nested start).Runs context s (· = s)
      fun v => Told context s [.node (.table v)] := by
  have hstart : Underway context s false [] s := ⟨.nothing s, nofun⟩
  refine .markAt ((Runs.step hstart hend).bind fun _ => ?_)
  exact (tableBody_runs hn).mono (fun _ hs => hs) fun _ _ hs => hs.told

/-- A call is told of behind what is called and its arguments. -/
theorem callArguments_runs (base : Expression) :
    (callArguments nested base origin.token.start).Runs context origin
      (Underway context origin true [base.item]) fun v => Underway context origin true [v.item] := by
  refine .current fun s hs => .ite (fun hparen => ?_) fun _ => .ite (fun hbrace => ?_) fun _ => .ite (fun _ => ?_) fun _ => .demand _
  · refine .has fun flexible => .read fun t ht => .ite (fun _ => .blame _ _ _) fun _ => ?_
    subst ht
    refine (Runs.step hs (isEnd_of_symbol hparen)).bind fun _ => (optionalList_tells hn).bind fun arguments => ?_
    exact (Runs.expect _).bind fun _ => .expression (fun _ => rfl) (fun _ => rfl) fun _ => rfl
  · have htable := Tells.inside hs (bracedTable_runs hn (isEnd_of_symbol hbrace))
    have hcall (argument : Table) : (placed origin.token.start >>= fun placement =>
        completed (.tableCall base argument placement)).Runs context origin
        (Underway context origin true [base.item, .node (.table argument)])
          fun v => Underway context origin true [v.item] :=
      .expression (fun _ => rfl) (fun _ => rfl) fun _ => rfl
    have hwhole := htable.bind hcall
    simp only [bind_assoc] at hwhole
    exact hwhole
  · exact (literal_tells.runsAt hs).bind fun argument => .expression (fun _ => rfl) (fun _ => rfl) fun _ => rfl

/-- A suffix is told of behind its base. -/
theorem suffix_runs (base : Expression) : (suffix nested origin.token.start base).Runs context origin
    (Underway context origin true [base.item]) fun v => Underway context origin true [v.item] := by
  refine .consume ?_ (.consume ?_ (.consume ?_ (callArguments_runs hn base)))
  · refine (expression_tells hn).bind fun index => (Runs.expect _).bind fun _ => ?_
    exact .expression (fun _ => rfl) (fun _ => rfl) fun _ => rfl
  · exact identifier_tells.bind fun name => member_runs base .dot name
  · refine identifier_tells.bind fun name => (member_runs base .colon name).bind fun method => ?_
    exact callArguments_runs hn method

/-- A row of suffixes is told of by the last of them. -/
theorem suffixes_runs (operand : Expression) :
    (iterated (suffixStep nested origin.token.start) operand).Runs context origin
      (Underway context origin true [operand.item]) fun v => Underway context origin true [v.item] := by
  refine Runs.iterated (fun v => Underway context origin true [v.item]) (fun base => ?_) operand
  refine .glance fun token => .ite (fun _ => ?_) fun _ => .give fun _ hs => hs
  exact (suffix_runs hn base).bind fun v => .give fun _ hs => hs

/-- What stands in parentheses is told of without them. -/
theorem parenthesised_tells : (parenthesised nested).Tells fun v => [v.item] := by
  refine .of_runs fun context origin => (expression_tells hn).bind fun inner => ?_
  exact (Runs.expect _).bind fun _ => .give fun _ hs => hs.told

/-- Something with suffixes is told of, if there is any. -/
theorem suffixed_tells : (suffixed nested).Tells fun v => v.toList.map Expression.item := by
  refine fun context origin => .mark (.glance fun token => .ite (fun _ => ?_) fun _ => .consume ?_ ?_)
  · refine resolved_tells.bind fun name => ?_
    have hname (s : State) (hs : Underway context origin false [name.item] s) :
      Underway context origin true [(Expression.identifier name).item] s := hs.begun_of_expression
    exact ((suffixes_runs hn _).since hname).bind fun v => .give fun _ hs => hs.told
  · refine (parenthesised_tells hn).bind fun inner => ?_
    exact (suffixes_runs hn inner).bind fun v => .give fun _ hs => hs.told
  · exact .give fun _ hs => hs.told

/-! ## Operators -/

/-- An operand is told of, if there is one. -/
theorem operand_runs : (operand nested origin.token.start).Runs context origin
    (Underway context origin false [])
      fun v => Underway context origin false (v.toList.map Expression.item) := by
  refine .current fun s hs => ?_
  cases hoperator : UnaryOperator.ofToken? s.token.value with
  | some operator =>
    have hend : s.token.value ≠ .endOfInput := fun h => by rw [h] at hoperator; cases hoperator
    refine (Runs.step hs (isEnd_eq_false hend)).bind fun _ => (required_tells hn _).bind fun argument => ?_
    have hitems (placement : Placement) :
      (Node.expression (.unary operator argument placement)).items = [argument.item] := rfl
    refine .close hitems (fun _ => rfl) fun placement => (Runs.completed rfl).bind fun v => ?_
    exact .give fun _ hs => hs.weaken
  | none =>
    refine ((primary_tells hn).runsAt hs).bind fun v => ?_
    cases v with
    | none => exact (suffixed_tells hn).runs
    | some expression => exact .give fun _ hs => hs

/-- Joined operands are told of behind both. -/
theorem operatorStep_runs (level : Nat) (left : Expression) :
    (operatorStep nested level origin.token.start left).Runs context origin
      (Underway context origin true [left.item])
        fun v => Underway context origin true [(v.getD left).item] := by
  refine .current fun s hs => ?_
  cases hoperator : Operator.ofToken? s.token.value with
  | none => exact .give fun _ heq => heq ▸ hs
  | some operator =>
    have hend : s.token.value ≠ .endOfInput := fun h => by rw [h] at hoperator; cases hoperator
    simp only
    split
    · exact .give fun _ heq => heq ▸ hs
    · refine (Runs.step hs (isEnd_eq_false hend)).bind fun _ => (required_tells hn _).bind fun right => ?_
      cases operator with
      | logical known =>
        have hitems (placement : Placement) :
          (Node.expression (.logical known left right placement)).items = [left.item, right.item] := rfl
        exact .close hitems (fun _ => rfl) fun _ => (Runs.completed rfl).bind fun v => .give fun _ hs => hs
      | binary known =>
        have hitems (placement : Placement) :
          (Node.expression (.binary known left right placement)).items = [left.item, right.item] := rfl
        exact .close hitems (fun _ => rfl) fun _ => (Runs.completed rfl).bind fun v => .give fun _ hs => hs

/-- A row of operands is told of by its tree. -/
theorem operation_tells (level : Nat) : (operation nested level).Tells
    fun v => v.toList.map Expression.item := by
  refine fun context origin => .mark ((operand_runs hn).bind fun v => ?_)
  cases v with
  | none => exact .give fun _ hs => hs.told
  | some first =>
    have hrow := Runs.iterated (fun v => Underway context origin true [v.item])
      (operatorStep_runs hn level) first
    refine (hrow.since fun s hs => Underway.begun_of_expression hs).bind fun v => ?_
    exact .give fun _ hs => hs.told

end

end LuaSyntax.Grammar
