import LuaSyntax.Grammar.Block
import LuaSyntax.Proofs.Grammar.Lockstep.Diagonal

/-!
# Blocks and functions side by side

Rules over nested rules are stable if the nested ones are. `Pairing.Fit` is what is asked of the
nested rules: that they are stable, that they make progress where that matters, and one thing about
the token ahead. A rule that looks ahead decides by a token that need not be the same in both parses;
then the first parse is about to escape, and it must not fail to.
-/

namespace LuaSyntax.Grammar

open Rule

/-- Nested rules that are stable. -/
structure Pairing.StableNested (P : Pairing) (nested : Nested) : Prop where
  statement : P.Stable Same nested.statement nested.statement
  expression : ∀ level, P.Stable Same (nested.expression level) (nested.expression level)
  /-- Where the token ahead differs, an expression that is a name takes the first parse away. -/
  ahead : (∀ s t, P.Related s t → Same s.lookahead t.lookahead) ∨
    (∀ level context s, ∃ error, nested.expression level context s = (.error error, s)) ∨
    P.TakesName (nested.expression 0)

/-- Nested rules with which repetitions make progress. -/
structure Nested.Advances (nested : Nested) : Prop where
  statement : nested.statement.Takes
  stable : ∀ context count, (Pairing.diagonal context (State.Past count)).StableNested nested

/-- Nested rules over which rules are stable. -/
structure Pairing.Fit (P : Pairing) (nested : Nested) : Prop where
  stable : P.StableNested nested
  paced : P.Paced nested.Advances

variable {nested : Nested}

/-- A parse beside itself has equal bounds. -/
theorem Nested.Advances.fit (h : nested.Advances) (context : Context) (count : Nat) :
    (Pairing.diagonal context (State.Past count)).Fit nested :=
  ⟨h.stable context count, .inl rfl⟩

/-- A turn makes progress if it leads behind one more token whenever others may follow it. -/
theorem Rule.TurnAdvances.of_leads {α : Type} {turn : Rule (Turn α)}
    (h : ∀ count, turn.Leads (State.Past count) fun v s =>
      ∀ item, v = .more item → State.Past (count + 1) s) : turn.TurnAdvances :=
  fun context s item s' hrun => h s.taken context s _ s' (Nat.le_refl _) hrun item rfl

/-- An item makes progress if it leads behind one more token whenever there is one. -/
theorem Rule.ItemAdvances.of_leads {α : Type} {item : Rule (Option α)}
    (h : ∀ count, item.Leads (State.Past count) fun v s =>
      ∀ value, v = some value → State.Past (count + 1) s) : item.ItemAdvances :=
  fun context s value s' hrun => h s.taken context s _ s' (Nat.le_refl _) hrun value rfl

/-- An item that was read has taken a token. -/
theorem Rule.ItemAdvances.leads {α : Type} {item : Rule (Option α)} (h : item.ItemAdvances)
    (count : Nat) : item.Leads (State.Past count) fun v s =>
      ∀ value, v = some value → State.Past (count + 1) s := by
  intro context s v s' hs hrun value heq
  subst heq
  exact Nat.lt_of_le_of_lt hs (h context s value s' hrun)

/-- Whether a token ends a block does not depend on its place. -/
theorem endsBlock_eq {a b : Token} (h : Same a b) : endsBlock a = endsBlock b := by
  rw [endsBlock, endsBlock, h.value_eq]

/-- A turn of a block that goes on has taken a token. -/
theorem blockTurn_advances (hn : nested.Advances) : (blockTurn nested).TurnAdvances := by
  refine .of_leads fun count => (steady_current count).bind fun token =>
    .ite (fun _ => .give (by simp)) fun _ => ?_
  refine (steady_has _ count).bind fun relaxed =>
    (hn.statement count).bind fun statement => .ite (fun _ => .ite (fun _ => ?_) fun _ => ?_) fun _ => ?_
  · exact (steady_consume _ (count + 1)).bind fun _ => .give (by simp)
  · exact .give (by simp)
  · exact (steady_consume _ (count + 1)).bind fun _ => .give fun _ hs _ _ => hs

namespace Pairing

variable {P : Pairing} [P.Sound]

/-- Parts of a block are read side by side. -/
theorem stable_blockTurn (hn : P.Fit nested) :
    P.Stable Same (blockTurn nested) (blockTurn nested) := by
  refine stable_current.bind fun token token' h => .ite (endsBlock_eq h) (.give rfl) ?_
  refine (stable_has _).bind fun relaxed relaxed' hrelaxed => ?_
  refine hn.stable.statement.bind fun statement statement' hstatement => ?_
  refine .ite (by rw [h.isWord_eq, h.isWord_eq, same_bool.mp hrelaxed]) ?_ ?_
  · refine .ite (h.isWord_eq _) ?_ (.give (same_last.mpr hstatement))
    exact (stable_consume _).bind fun _ _ _ => .give (same_last.mpr hstatement)
  · exact (stable_consume _).bind fun _ _ _ => .give (same_more.mpr hstatement)

/-- The statements of a block are read side by side. -/
theorem stable_statements (hn : P.Fit nested) :
    P.Stable Same (statements nested) (statements nested) :=
  (Stable.repeated (stable_blockTurn hn) (hn.paced.imp_right blockTurn_advances)).bind
    fun _ _ h => .give h.filterMap_id

/-- Blocks with scopes of their own are read side by side. -/
theorem stable_scopedBlock (hn : P.Fit nested) (isLoop : Bool) :
    P.Stable Same (scopedBlock nested isLoop) (scopedBlock nested isLoop) :=
  stable_openScope.bind fun _ _ _ => (stable_openBlock isLoop).bind fun _ _ _ =>
    (stable_statements hn).bind fun _ _ hbody => stable_closeBlock.bind fun _ _ _ =>
      stable_closeScope.bindAny fun _ _ => .give (same_block hbody)

/-! ## Functions -/

/-- A parameter is declared alike in both parses. -/
theorem stable_declaredParameter {declarator declarator' : Declarator}
    (h : Same declarator declarator') :
    P.Stable Same (declaredParameter declarator) (declaredParameter declarator') := by
  match declarator, declarator' with
  | .plain name, .plain name' =>
    exact (stable_declare (same_plain.mp h)).bind fun _ _ hname =>
      .give (congrArg Parameter.plain hname)
  | .typed typed, .typed typed' =>
    obtain ⟨hname, htype⟩ := same_typedIdentifier.mp (same_typed.mp h)
    exact (stable_declare hname).bind fun _ _ hdeclared =>
      .give (congrArg Parameter.typed (same_typedIdentifier.mpr ⟨hdeclared, htype⟩))
  | .plain _, .typed _ => cases h
  | .typed _, .plain _ => cases h

/-- Both parses allow dots from here on. -/
theorem stable_allowVararg :
    P.Stable Same
      (modify fun state => { state with jumps := { state.jumps with allowsVararg := true } })
      (modify fun state => { state with jumps := { state.jumps with allowsVararg := true } }) where
  escape s hs := Sound.escaped_put hs s.scope s.log { s.jumps with allowsVararg := true }
  meet s t hst := by
    have h := (Sound.alike hst).jumps
    refine .both rfl (Sound.put hst s.scope t.scope s.log t.log ?_)
    exact congrArg (fun jumps : Jumps => { jumps with allowsVararg := true }) h

/-- Parameters are read side by side, one turn in each parse. -/
theorem stable_parameterTurn : P.Stable Same parameterTurn parameterTurn := by
  refine stable_current.bind fun token token' h => ?_
  rw [h.kind_eq]
  split
  · refine stable_declarator.bind fun _ _ hname => (stable_declaredParameter hname).bind
      fun parameter parameter' hparameter => (stable_consume _).bind fun _ _ hcomma =>
        .ite hcomma (.give (same_more.mpr hparameter)) ?_
    exact (stable_expect _).bind fun _ _ _ => .give (same_last.mpr hparameter)
  · exact stable_allowVararg.bind fun _ _ _ => stable_literal.bind fun _ _ hdots =>
      (stable_expect _).bind fun _ _ _ =>
        .give (same_last.mpr (congrArg Parameter.vararg hdots))
  · exact stable_demand _

/-- A turn that reads a parameter takes a token. -/
theorem parameterTurn_advances : parameterTurn.TurnAdvances := by
  refine .of_leads fun count => (steady_current count).bind fun token => ?_
  split
  · refine (Steady.of_stable (fun _ _ => stable_declarator) count).bind fun declarator => ?_
    refine (Steady.of_stable (fun _ _ => stable_declaredParameter (.refl _)) count).bind
      fun parameter => consume_leads ?_ ?_
    · exact .ite (fun _ => .give fun _ hs _ _ => hs) (by simp)
    · exact .ite (by simp) fun _ => ((takes_expect _).steady count).bind fun _ => .give (by simp)
  · exact (Steady.of_stable (fun _ _ => stable_allowVararg) count).bind fun _ =>
      (takes_literal.steady count).bind fun _ => ((takes_expect _).steady count).bind fun _ =>
        .give (by simp)
  · exact .of_fails fun _ s => ⟨_, s, rfl⟩

/-- Lists of parameters are read side by side. -/
theorem stable_parameters : P.Stable Same parameters parameters :=
  (stable_expect _).bind fun _ _ _ => (stable_consume _).bind fun _ _ hclosed =>
    .ite hclosed (.give rfl) (.repeated stable_parameterTurn (.inr parameterTurn_advances))

/-- Functions are read side by side, wherever they begin. -/
theorem stable_functionBody (hn : P.Fit nested) {name name' : Option Expression}
    (hname : Same name name') (isLocal isMethod : Bool) (start start' : Place) :
    P.Stable Same (functionBody nested name isLocal isMethod start)
      (functionBody nested name' isLocal isMethod start') := by
  refine stable_openScope.bind fun _ _ _ =>
    .branch (stable_declareName _) fun _ _ => .read fun s t h => ?_
  have hinner : Same
      { tracksLabels := s.jumps.tracksLabels
        checksTargets := s.jumps.checksTargets
        allowsVararg := false : Jumps }
      { tracksLabels := t.jumps.tracksLabels
        checksTargets := t.jumps.checksTargets
        allowsVararg := false } := by
    have htracks := h.jumps.map_eq Jumps.tracksLabels fun _ => rfl
    have hchecks := h.jumps.map_eq Jumps.checksTargets fun _ => rfl
    rw [htracks, hchecks]
  refine (stable_setJumps hinner).bind fun _ _ _ => (stable_openBlock false).bind fun _ _ _ =>
    stable_parameters.bind fun _ _ hparameters => (stable_statements hn).bind fun _ _ hbody =>
      stable_closeBlock.bind fun _ _ _ => (stable_setJumps h.jumps).bind fun _ _ _ =>
        (stable_expect _).bind fun _ _ _ => stable_closeScope.bindAny fun _ _ =>
          (stable_placed _ _).bindAny fun _ _ => .give ?_
  exact same_function hname hparameters (same_block hbody)

/-- The name of a function is made longer alike in both parses. -/
theorem stable_nameStep (start start' : Place) {base base' : Expression} (h : Same base base') :
    P.Stable Same (nameStep start base) (nameStep start' base') :=
  (stable_consume _).bind fun _ _ hdot => .ite hdot
    (stable_identifier.bind fun _ _ hname => (stable_member h .dot hname start start').bind
      fun _ _ hmember => .give (same_some.mpr hmember))
    (.give rfl)

/-- A longer name takes a token. -/
theorem nameStep_advances (start : Place) (base : Expression) :
    (nameStep start base).ItemAdvances := by
  refine .of_leads fun count => consume_leads (.ite (fun _ => ?_) (by simp)) (.ite (by simp) ?_)
  · exact (takes_identifier.steady (count + 1)).bind fun name =>
      (steady_member base .dot name start (count + 1)).bind fun _ => .give fun _ hs _ _ => hs
  · exact fun _ => .give (by simp)

/-- The names of functions are read side by side. -/
theorem stable_functionName : P.Stable Same functionName functionName := by
  refine stable_mark.bindAny fun start start' => stable_resolved.bind fun name name' hname => ?_
  have hbase := Stable.iterated (P := P) (fun _ _ h => stable_nameStep start start' h)
    (.inr fun base => nameStep_advances start base) (same_nameExpression hname)
  refine hbase.bind fun base base' h => (stable_consume _).bind fun _ _ hcolon => .ite hcolon ?_
    (.give (same_mk.mpr ⟨h, rfl⟩))
  exact stable_identifier.bind fun _ _ hname => (stable_member h .colon hname start start').bind
    fun _ _ hmember => .give (same_mk.mpr ⟨hmember, rfl⟩)

end Pairing

end LuaSyntax.Grammar
