import LuaSyntax.Proofs.Grammar.Bounds.Rule
import LuaSyntax.Proofs.Grammar.Told.Expression

/-!
# Blocks and expressions within ample bounds

Each rule between those for what is nested does the same in both parses if the nested rules do. The
only thing to see in each case is that a token that is taken is known not to be the end.
-/

namespace LuaSyntax.Grammar.Ample

open Rule

variable {a : Ample} {s : State} {nested : Nested}

/-! ## Leaves -/

/-- A name is taken only where one stands. -/
theorem identifier : a.At identifier s := by
  refine At.mark.bind fun start s' hmark => ?_
  cases hmark
  refine .current ?_
  cases hname : s.token.name? with
  | none => exact .demand _
  | some name =>
    have hend : s.token.value ≠ .endOfInput := fun h => by
      rw [Token.name?, h] at hname
      cases hname
    exact (At.advance (isEnd_eq_false hend)).andThen fun _ _ =>
      (At.placed _).andThen fun _ _ => (At.complete _).andThen fun _ _ => .give _

theorem resolved : a.At resolved s :=
  identifier.andThen fun _ _ => .read (fun _ => rfl)
    ((At.modify ⟨fun _ => rfl, rfl, rfl, rfl, rfl⟩).andThen fun _ _ => .give _)

/-- A literal is taken only where one stands. -/
theorem literal : a.At literal s := by
  refine At.mark.bind fun start s' hmark => ?_
  cases hmark
  refine .current ?_
  cases hvalue : literalValue? s.token.value with
  | none => exact .refuse
  | some value =>
    have hend : s.token.value ≠ .endOfInput := fun h => by
      rw [h] at hvalue
      cases hvalue
    exact (At.advance (isEnd_eq_false hend)).andThen fun _ _ =>
      (At.placed _).andThen fun _ _ => (At.complete _).andThen fun _ _ => .give _

theorem declarator : a.At declarator s := by
  refine At.mark.andThen fun start _ => identifier.andThen fun name _ => .has (.at? ?_ ?_)
  · exact fun hend => .ite
      (fun _ => (At.advance hend).andThen fun _ _ => identifier.andThen fun _ _ =>
        (At.placed _).andThen fun _ _ => (At.complete _).andThen fun _ _ => .give _)
      fun _ => .give _
  · rw [Bool.and_false]
    exact .give _

theorem member (base : Expression) (indexer : Indexer) (name : Identifier) (start : Place) :
    a.At (member base indexer name start) s :=
  (At.placed _).andThen fun _ _ => .completed _

/-! ## Blocks and functions -/

/-- Nested rules that do the same in both parses, and make progress. -/
structure Fit (a : Ample) (nested : Nested) : Prop where
  statement : a.Throughout nested.statement
  expression : ∀ level, a.Throughout (nested.expression level)
  advances : nested.Advances

section

variable (hn : a.Fit nested)

include hn

/-- A turn of a block goes on only where the block does not end. -/
theorem blockTurn : a.At (blockTurn nested) s := by
  refine .current (.ite (fun _ => .give _) fun _ => .has ((hn.statement s).andThen fun _ _ => ?_))
  refine .ite (fun _ => .ite (fun _ => ?_) fun _ => .give _) fun _ => ?_
  · exact At.consume.andThen fun _ _ => .give _
  · exact At.consume.andThen fun _ _ => .give _

theorem statements : a.At (statements nested) s :=
  (At.repeated (fun _ => blockTurn hn) (blockTurn_advances hn.advances)).andThen fun _ _ => .give _

theorem scopedBlock (isLoop : Bool) : a.At (scopedBlock nested isLoop) s :=
  At.openScope.andThen fun _ _ => (At.openBlock isLoop).andThen fun _ _ =>
    (statements hn).andThen fun _ _ => At.closeBlock.andThen fun _ _ =>
      At.closeScope.andThen fun _ _ => .give _

end

theorem declaredParameter (name : Declarator) : a.At (declaredParameter name) s := by
  cases name with
  | plain name => exact (At.declare name).andThen fun _ _ => .give _
  | typed typed => exact (At.declare typed.name).andThen fun _ _ => .give _

/-- A parameter is read, and perhaps a comma behind it. -/
theorem parameterTurn : a.At parameterTurn s := by
  refine .current ?_
  split
  · refine declarator.andThen fun name _ => (declaredParameter name).andThen fun _ _ => ?_
    refine At.consume.andThen fun _ _ => .ite (fun _ => .give _) fun _ => ?_
    exact (At.expect _).andThen fun _ _ => .give _
  · exact (At.modify ⟨fun _ => rfl, rfl, rfl, rfl, rfl⟩).andThen fun _ _ =>
      literal.andThen fun _ _ => (At.expect _).andThen fun _ _ => .give _
  · exact .demand _

theorem parameters : a.At parameters s :=
  (At.expect _).andThen fun _ _ => At.consume.andThen fun _ _ => .ite (fun _ => .give _)
    fun _ => .repeated (fun _ => parameterTurn) Pairing.parameterTurn_advances

section

variable (hn : a.Fit nested)

include hn

theorem functionBody (name : Option Expression) (isLocal isMethod : Bool) (start : Place) :
    a.At (functionBody nested name isLocal isMethod start) s := by
  refine At.openScope.andThen fun _ s => ?_
  have hrest : a.Throughout (do
      let outer := (← Rule.state).jumps
      setJumps
        { tracksLabels := outer.tracksLabels
          checksTargets := outer.checksTargets
          allowsVararg := false }
      Rule.openBlock false
      let parameters ← Grammar.parameters
      let body ← Grammar.statements nested
      Rule.closeBlock
      setJumps outer
      Rule.expect ReservedWord.endWord
      let scope ← Rule.closeScope
      return Function.mk name isLocal parameters (.mk body scope) (← Rule.placed start)) :=
    fun s => .read (fun _ => rfl) ((At.setJumps _).andThen fun _ _ => (At.openBlock _).andThen fun _ _ =>
      parameters.andThen fun _ _ => (statements hn).andThen fun _ _ => At.closeBlock.andThen fun _ _ =>
        (At.setJumps _).andThen fun _ _ => (At.expect _).andThen fun _ _ =>
          At.closeScope.andThen fun _ _ => (At.placed _).andThen fun _ _ => .give _)
  cases isMethod with
  | false => exact hrest s
  | true => exact (At.declareName "self").andThen fun _ => hrest

end

theorem nameStep (start : Place) (base : Expression) : a.At (nameStep start base) s :=
  At.consume.andThen fun _ _ => .ite
    (fun _ => identifier.andThen fun _ _ => (member _ _ _ _).andThen fun _ _ => .give _)
    fun _ => .give _

/-- The parts of a function's name are read as long as dots stand between them. -/
theorem functionName : a.At functionName s :=
  At.mark.andThen fun start _ => resolved.andThen fun _ _ =>
    (At.iterated (fun base _ => nameStep start base) (fun base => Pairing.nameStep_advances start base) _).andThen
      fun _ _ => At.consume.andThen fun _ _ => .ite
        (fun _ => identifier.andThen fun _ _ => (member _ _ _ _).andThen fun _ _ => .give _)
        fun _ => .give _

/-! ## Expressions -/

/-- What is required fails in both parses, or in neither. -/
theorem required {expression : Rule (Option Expression)} (h : a.At expression s) :
    a.At (required expression) s := by
  refine h.andThen fun found _ => ?_
  cases found with
  | none => exact .demand _
  | some expression => exact .give _

section

variable (hn : a.Fit nested)

include hn

theorem expression : a.At (expression nested) s := required (hn.expression 0 s)

theorem commaExpression : a.At (commaExpression nested) s :=
  At.consume.andThen fun _ _ => .ite (fun _ => (expression hn).andThen fun _ _ => .give _)
    fun _ => .give _

/-- The expressions behind the first are as many as there are commas. -/
theorem moreExpressions : a.At (many (Grammar.commaExpression nested)) s :=
  .many (fun _ => commaExpression hn) (commaExpression_advances hn.advances)

theorem expressionList : a.At (expressionList nested) s :=
  (expression hn).andThen fun _ _ => (moreExpressions hn).andThen fun _ _ => .give _

theorem optionalList : a.At (optionalList nested) s := by
  refine (hn.expression 0 s).andThen fun found _ => ?_
  cases found with
  | none => exact .give _
  | some first => exact (moreExpressions hn).andThen fun _ _ => .give _

/-! ## Constructors -/

theorem tableField : a.At (tableField nested) s := by
  refine At.mark.andThen fun start _ => At.consume.andThen fun _ s => .ite (fun _ => ?_) fun _ => ?_
  · exact (expression hn).andThen fun _ _ => (At.expect _).andThen fun _ _ => (At.expect _).andThen
      fun _ _ => (expression hn).andThen fun _ _ => (At.placed _).andThen fun _ _ => .give _
  · refine .current (.read (fun _ => rfl) (.ite (fun hnamed => ?_) fun _ => ?_))
    · -- What stands behind the name was in view before.
      refine identifier.bind fun key s' hkey => ?_
      have hend : s'.token.isEnd = false := by
        rw [(identifier_eq_ok hkey).2]
        exact isEnd_of_symbol (Bool.and_eq_true_iff.mp hnamed).2
      exact (At.advance hend).andThen fun _ _ => (expression hn).andThen fun _ _ =>
        (At.placed _).andThen fun _ _ => .give _
    · refine (hn.expression 0 s).andThen fun found _ => ?_
      cases found with
      | none => exact .give _
      | some value => exact (At.placed _).andThen fun _ _ => .give _

omit hn in
/-- A separator behind a field is taken. -/
theorem separated {α : Type} (more last : α) :
    a.At (do
      if (← at? Symbol.comma) || (← at? Symbol.semicolon) then
        Rule.advance
        return more
      else return last) s := by
  refine .at? (fun hend => ?_) (.at? (fun hend => ?_) (.give _))
  · exact (At.advance hend).andThen fun _ _ => .give _
  · exact (At.advance hend).andThen fun _ _ => .give _

/-- A field of a table is read, and perhaps a separator behind it. -/
theorem tableTurn : a.At (tableTurn nested) s := by
  refine (tableField hn).andThen fun found _ => ?_
  cases found with
  | none => exact .give _
  | some field => exact (At.complete _).andThen fun _ _ => separated _ _

theorem tableBody (start : Place) : a.At (tableBody nested start) s :=
  (At.repeated (fun _ => tableTurn hn) (Pairing.tableTurn_advances hn.advances)).andThen fun _ _ =>
    (At.expect _).andThen fun _ _ => (At.placed _).andThen fun _ _ => (At.complete _).andThen
      fun _ _ => .give _

theorem makeTurn : a.At (makeTurn nested) s :=
  .at? (fun _ => .give _) (At.mark.andThen fun _ _ => identifier.andThen fun _ _ =>
    (At.expect _).andThen fun _ _ => (expression hn).andThen fun _ _ => (At.placed _).andThen
      fun _ _ => (At.complete _).andThen fun _ _ => separated _ _)

theorem makeBody (start : Place) : a.At (makeBody nested start) s :=
  identifier.andThen fun _ _ => (At.expect _).andThen fun _ _ =>
    (At.repeated (fun _ => makeTurn hn) (Pairing.makeTurn_advances hn.advances)).andThen fun _ _ =>
      (At.expect _).andThen fun _ _ => (At.placed _).andThen fun _ _ => .completed _

theorem primary : a.At (primary nested) s := by
  refine At.mark.andThen fun start _ => .current (.ite (fun _ => ?_) fun _ => ?_)
  · exact .read (fun _ => rfl) (.ite (fun _ => .blame _ _ _) fun _ =>
      literal.andThen fun _ _ => .give _)
  · refine At.consume.andThen fun _ _ => .ite (fun _ => ?_) fun _ => ?_
    · exact (functionBody hn _ _ _ _).andThen fun _ _ => (At.completed _).andThen fun _ _ => .give _
    · refine At.consume.andThen fun _ _ => .ite (fun _ => ?_) fun _ => ?_
      · exact (tableBody hn _).andThen fun _ _ => .give _
      · exact At.consume.andThen fun _ _ => .ite
          (fun _ => (makeBody hn _).andThen fun _ _ => .give _) fun _ => .give _

/-! ## Suffixes -/

theorem callArguments (base : Expression) (start : Place) :
    a.At (callArguments nested base start) s := by
  refine .current (.ite (fun hparen => ?_) fun _ => .ite (fun hbrace => ?_) fun _ => .ite (fun _ => ?_)
    fun _ => .demand _)
  · refine .has (.read (fun _ => rfl) (.ite (fun _ => .blame _ _ _) fun _ => ?_))
    exact (At.advance (isEnd_of_symbol hparen)).andThen fun _ _ => (optionalList hn).andThen fun _ _ =>
      (At.expect _).andThen fun _ _ => (At.placed _).andThen fun _ _ => .completed _
  · refine At.mark.bind fun tableStart s' hmark => ?_
    cases hmark
    exact (At.advance (isEnd_of_symbol hbrace)).andThen fun _ _ => (tableBody hn _).andThen fun _ _ =>
      (At.placed _).andThen fun _ _ => .completed _
  · exact literal.andThen fun _ _ => (At.placed _).andThen fun _ _ => .completed _

theorem suffix (start : Place) (base : Expression) : a.At (suffix nested start base) s := by
  refine At.consume.andThen fun _ _ => .ite (fun _ => ?_) fun _ => At.consume.andThen fun _ _ =>
    .ite (fun _ => ?_) fun _ => At.consume.andThen fun _ _ => .ite (fun _ => ?_)
      fun _ => callArguments hn _ _
  · exact (expression hn).andThen fun _ _ => (At.expect _).andThen fun _ _ =>
      (At.placed _).andThen fun _ _ => .completed _
  · exact identifier.andThen fun _ _ => member _ _ _ _
  · exact identifier.andThen fun _ _ => (member _ _ _ _).andThen fun _ _ => callArguments hn _ _

/-- Suffixes are read as long as a token begins one. -/
theorem suffixes (start : Place) (base : Expression) :
    a.At (iterated (suffixStep nested start) base) s :=
  .iterated (fun base _ => .current (.ite
    (fun _ => (suffix hn start base).andThen fun _ _ => .give _) fun _ => .give _))
    (fun base => Pairing.suffixStep_advances hn.advances start base) base

theorem parenthesised : a.At (parenthesised nested) s :=
  (expression hn).andThen fun _ _ => (At.expect _).andThen fun _ _ => .give _

theorem suffixed : a.At (suffixed nested) s := by
  refine At.mark.andThen fun start _ => .current (.ite (fun _ => ?_) fun _ => ?_)
  · exact resolved.andThen fun _ _ => (suffixes hn start _).andThen fun _ _ => .give _
  · refine At.consume.andThen fun _ _ => .ite (fun _ => ?_) fun _ => .give _
    exact (parenthesised hn).andThen fun _ _ => (suffixes hn start _).andThen fun _ _ => .give _

/-! ## Operators -/

theorem operand (start : Place) : a.At (operand nested start) s := by
  refine .current ?_
  cases hoperator : UnaryOperator.ofToken? s.token.value with
  | some operator =>
    have hend : s.token.value ≠ .endOfInput := fun h => by
      rw [h] at hoperator
      cases hoperator
    exact (At.advance (isEnd_eq_false hend)).andThen fun _ s =>
      (required (hn.expression _ s)).andThen fun _ _ => (At.placed _).andThen fun _ _ =>
        (At.completed _).andThen fun _ _ => .give _
  | none =>
    refine (primary hn).andThen fun found _ => ?_
    cases found with
    | none => exact suffixed hn
    | some expression => exact .give _

/-- An operator is taken only where one stands that binds tightly enough. -/
theorem operatorStep (level : Nat) (start : Place) (left : Expression) :
    a.At (operatorStep nested level start left) s := by
  refine .current ?_
  cases hoperator : Operator.ofToken? s.token.value with
  | none => exact .give _
  | some operator =>
    have hend : s.token.value ≠ .endOfInput := fun h => by
      rw [h] at hoperator
      cases hoperator
    simp only
    split
    · exact .give _
    · exact (At.advance (isEnd_eq_false hend)).andThen fun _ s =>
        (required (hn.expression _ s)).andThen fun _ _ => (At.placed _).andThen fun _ _ =>
          (At.completed _).andThen fun _ _ => .give _

theorem operation (level : Nat) : a.At (operation nested level) s := by
  refine At.mark.andThen fun start _ => (operand hn start).andThen fun found _ => ?_
  cases found with
  | none => exact .give _
  | some first =>
    exact (At.iterated (fun left _ => operatorStep hn level start left)
      (fun left => Pairing.operatorStep_advances hn.advances level start left) first).andThen fun _ _ => .give _

end

end LuaSyntax.Grammar.Ample
