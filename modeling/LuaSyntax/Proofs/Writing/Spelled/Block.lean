import LuaSyntax.Proofs.Tree.WellFormed
import LuaSyntax.Proofs.Writing.Spelling

/-!
# Blocks and functions, spelled

Where the words of a block or a function stand, it is written, if that holds of what it nests and there
are as many levels as it needs.
-/

namespace LuaSyntax

variable {dialect : Dialect} {line depth : Nat} {p q m : Point}

/-- Whether a statement is a `return`, which takes the semicolon behind it. -/
def Statement.isReturn : Statement → Bool
  | .returnStatement .. => true
  | _ => false

/-- What begins like a `return` is one. -/
theorem Statement.isLast_of_return (dialect : Dialect) {v : Statement}
    (h : v.keyword? = some .returnWord) : v.isLast dialect = true := by
  cases v with
  | returnStatement => rfl
  | functionStatement function =>
    obtain ⟨_, isLocal, _, _, _⟩ := function
    cases isLocal <;> cases h
  | _ => cases h

/-- What begins like a `break` is one. -/
theorem Statement.isLast_of_break {v : Statement} (h : v.keyword? = some .breakWord)
    (hrelaxed : dialect.has .relaxedBreak = false) : v.isLast dialect = true := by
  cases v with
  | breakStatement => rw [Statement.isLast, hrelaxed]; rfl
  | functionStatement function =>
    obtain ⟨_, isLocal, _, _, _⟩ := function
    cases isLocal <;> cases h
  | _ => cases h

namespace Writing

/-- What needs fewer levels than there are is written as it is spelled. -/
structure Spelled (dialect : Dialect) (line depth : Nat) : Prop where
  statement : ∀ {situation : Situation} {v : Statement} {p q : Point}, situation.dialect = dialect →
    v.nesting < depth → v.WellFormed situation → Spells line (v.words dialect) p q →
      q.Faces Symbol.semicolon →
        (ofDepth dialect depth).statement (some v) p (if v.isReturn then q.step else q)
  expression : ∀ {around : Surroundings} {v : Expression}, around.dialect = dialect →
    v.nesting < depth → v.WellFormed around false →
      WrittenAs line Closes (Expression.words dialect) ((ofDepth dialect depth).expression 0) v
  operand : ∀ {around : Surroundings} {v : Expression} (level : Nat), around.dialect = dialect →
    v.nesting + 1 < depth → v.WellFormed around false →
      WrittenAs line Closes (fun v => enclosed (v.words dialect))
        ((ofDepth dialect depth).expression level) v
  absent : ∀ {p : Point}, 0 < depth → p.token.startsExpression = false →
    (ofDepth dialect depth).absent p

/-! ## What is written, by its beginning -/

/-- A statement begins with no token that ends a block, and hardly ever with the keyword of another. -/
theorem begins_of_written {v : Statement} (h : (ofDepth dialect depth).statement (some v) p q) :
    Grammar.endsBlock p.token = false ∧ ∀ word : ReservedWord, word ≠ .gotoWord → p.Faces word →
      v.keyword? = some word := by
  cases depth with
  | zero => exact h.elim
  | succ depth =>
    cases h with
    | label _ hopen =>
      refine ⟨?_, fun word _ hword => absurd hopen (hword.not_faces nofun)⟩
      rw [Grammar.endsBlock, show p.token.value = _ from hopen]
      rfl
    | proper h => exact ⟨h.endsBlock_eq, fun word hgoto hword => h.keyword?_eq hword hgoto⟩

/-- What is written as an expression starts one. -/
theorem starts_of_written {level : Nat} {v : Expression}
    (h : (ofDepth dialect depth).expression level v p q) : p.token.startsExpression = true := by
  cases depth with
  | zero => exact h.elim
  | succ depth => exact Operation.starts h

/-- A name that an expression starts with is all of it, or more follows that does not close it. -/
theorem ahead_of_written {level : Nat} {v : Expression}
    (h : (ofDepth dialect depth).expression level v p q) (hkind : p.token.kind = .identifier) :
    p.step = q ∨ ¬ Closes p.step := by
  cases depth with
  | zero => exact h.elim
  | succ depth => exact Operation.ahead h hkind

/-! ## Blocks -/

section

variable (hs : Spelled dialect line depth)

include hs

/-- Statements with a semicolon behind each. Only the last may be one that nothing follows. -/
theorem statements_of_spells {situation : Situation} {statements : List Statement}
    (hdialect : situation.dialect = dialect) (hnesting : statementsNesting statements ≤ depth)
    (hlast : ∀ statement ∈ statements.dropLast, statement.isLast dialect = false)
    (hwellFormed : wellFormedStatements situation statements)
    (h : Spells line (statementsWords dialect statements) p q) (hend : Grammar.endsBlock q.token = true) :
    Statements dialect (ofDepth dialect depth) statements p q := by
  induction statements generalizing p situation with
  | nil =>
    obtain rfl : p = q := h
    exact .nil hend
  | cons statement rest ih =>
    obtain ⟨m, hstatement, hsemicolon, hrest⟩ := h.between
    have hmax : max (statement.nesting + 1) (statementsNesting rest) ≤ depth := hnesting
    have hwritten := hs.statement hdialect (by omega) hwellFormed.1 hstatement hsemicolon
    obtain ⟨hends, hkeyword⟩ := begins_of_written hwritten
    cases hisLast : statement.isLast dialect with
    | true =>
      -- Nothing follows, so the semicolon is the last of the words.
      obtain rfl : rest = [] := by
        cases rest with
        | nil => rfl
        | cons next rest =>
          have := hlast statement List.mem_cons_self
          rw [hisLast] at this
          cases this
      obtain rfl : m.step = q := hrest
      cases statement with
      | returnStatement => exact .last hstatement.terminal.1 hwritten
      | breakStatement =>
        have hrelaxed : dialect.has .relaxedBreak = false := (Bool.not_eq_true' _).mp hisLast
        rw [← Point.skip_of_faces hsemicolon]
        exact .lastBreak hstatement.terminal.1 hrelaxed hwritten
      | _ => cases hisLast
    | false =>
      have hreturn : statement.isReturn = false := by
        cases statement <;> first | rfl | cases hisLast
      rw [hreturn, if_neg Bool.false_ne_true] at hwritten
      refine .more hends (fun hfaces => ?_) ?_ hwritten ?_
      · have := Statement.isLast_of_return dialect (hkeyword .returnWord nofun hfaces)
        exact Bool.false_ne_true (hisLast.symm.trans this)
      · rintro ⟨hfaces, hrelaxed⟩
        have := Statement.isLast_of_break (hkeyword .breakWord nofun hfaces) hrelaxed
        exact Bool.false_ne_true (hisLast.symm.trans this)
      · rw [Point.skip_of_faces hsemicolon]
        have hrestLast : ∀ other ∈ rest.dropLast, other.isLast dialect = false := by
          cases rest with
          | nil => exact List.forall_mem_nil _
          | cons next rest => exact (List.forall_mem_cons.mp hlast).2
        exact @ih m.step (situation.behind statement) hdialect (by omega) hrestLast hwellFormed.2 hrest

/-- A block that is spelled is written. -/
theorem block_of_spells {situation : Situation} {isRepeat : Bool} {body : Block}
    (hdialect : situation.dialect = dialect) (hnesting : body.nesting ≤ depth)
    (hwellFormed : body.WellFormed situation isRepeat) (h : Spells line (body.words dialect) p q)
    (hend : Grammar.endsBlock q.token = true) :
    Statements dialect (ofDepth dialect depth) body.statements p q := by
  obtain ⟨statements, scope⟩ := body
  obtain ⟨-, hlast, hstatements⟩ := hwellFormed
  rw [hdialect] at hlast
  exact statements_of_spells hs hdialect hnesting hlast hstatements h hend

/-- A block up to the keyword that ends it. -/
theorem block_of_spells_between {situation : Situation} {isRepeat : Bool} {body : Block}
    {word : ReservedWord} {more : List Word} (hdialect : situation.dialect = dialect)
    (hnesting : body.nesting ≤ depth) (hwellFormed : body.WellFormed situation isRepeat)
    (h : Spells line (body.words dialect ++ .terminal word :: more) p q)
    (hword : word ∈ [ReservedWord.elseWord, .elseifWord, .endWord, .untilWord]) :
    ∃ m, Statements dialect (ofDepth dialect depth) body.statements p m ∧ m.Faces word ∧
      Spells line more m.step q := by
  obtain ⟨m, hbody, hfaces, hmore⟩ := h.between
  refine ⟨m, block_of_spells hs hdialect hnesting hwellFormed hbody ?_, hfaces, hmore⟩
  rw [Grammar.endsBlock, show m.token.value = _ from hfaces]
  simp only [List.mem_cons, List.not_mem_nil, or_false] at hword
  rcases hword with rfl | rfl | rfl | rfl <;> rfl

/-! ## Functions -/

omit hs in
/-- A declared name that is spelled is written. -/
theorem declared_of_spells {name : Declarator} (hfits : name.Fits dialect) :
    WrittenAs line (fun q => ¬ q.Faces Symbol.colon) Declarator.words (Declared dialect) name := by
  intro p q h hcolon
  cases name with
  | plain identifier =>
    obtain ⟨hname, hend⟩ := h.name
    obtain rfl : p.step = q := hend
    exact .plain hname fun htyped => hcolon htyped.2
  | typed declared =>
    obtain ⟨hname, hrest⟩ := h.name
    obtain ⟨hfaces, hrest⟩ := hrest.terminal
    obtain ⟨htype, hend⟩ := hrest.name
    obtain rfl : p.step.step.step = q := hend
    exact .typed hfits hname hfaces htype

omit hs in
/-- What is no row of three dots declares a name. -/
theorem declared_of_parameter {parameter : Parameter} (hfits : parameter.Fits dialect)
    (hvararg : parameter.isVararg = false) (h : Spells line parameter.words p q)
    (hcolon : ¬ q.Faces Symbol.colon) :
    ∃ name : Declarator, parameter = name.parameter ∧ Declared dialect name p q := by
  cases parameter with
  | plain identifier =>
    have hplain : (Declarator.plain identifier).Fits dialect := trivial
    exact ⟨.plain identifier, rfl, declared_of_spells hplain p q h hcolon⟩
  | typed declared =>
    have htyped : (Declarator.typed declared).Fits dialect := hfits
    exact ⟨.typed declared, rfl, declared_of_spells htyped p q h hcolon⟩
  | vararg => cases hvararg

omit hs in
/-- Parameters that are spelled are written up to the parenthesis. -/
theorem parameterRow_of_spells {parameter : Parameter} {rest : List Parameter}
    (hfit : ParametersFit dialect (parameter :: rest))
    (h : Spells line (commaSeparated ((parameter :: rest).map Parameter.words)) p q)
    (hright : q.Faces Symbol.rightParen) : ParameterRow dialect (parameter :: rest) p q.step := by
  induction rest generalizing p parameter with
  | nil =>
    obtain ⟨m, hparameter, hend⟩ := spells_append.mp h
    obtain rfl : m = q := hend
    have hfits := hfit.1 parameter List.mem_cons_self
    cases hvararg : parameter.isVararg with
    | false =>
      obtain ⟨name, rfl, hdeclared⟩ :=
        declared_of_parameter hfits hvararg hparameter (hright.not_faces (by decide))
      exact .last hdeclared hright
    | true =>
      cases parameter with
      | vararg literal =>
        obtain ⟨hdots, hend⟩ := hparameter.literal
        obtain rfl : p.step = m := hend
        exact .dots hdots hfits hright
      | _ => cases hvararg
  | cons next rest ih =>
    obtain ⟨m, hparameter, hrest⟩ := spells_append.mp h
    obtain ⟨hcomma, hrest⟩ := hrest.terminal
    obtain ⟨hfits, hothers⟩ := List.forall_mem_cons.mp hfit.1
    obtain ⟨hvararg, hdots⟩ := List.forall_mem_cons.mp hfit.2
    obtain ⟨name, rfl, hdeclared⟩ :=
      declared_of_parameter hfits hvararg hparameter (hcomma.not_faces (by decide))
    exact .more hdeclared hcomma (ih ⟨hothers, hdots⟩ hrest)

omit hs in
/-- Parameters in parentheses that are spelled are written. -/
theorem parameters_of_spells {parameters : List Parameter} (hfit : ParametersFit dialect parameters)
    (h : Spells line (enclosed (commaSeparated (parameters.map Parameter.words))) p q) :
    Parameters dialect parameters p q := by
  obtain ⟨hleft, m, hrow, hright, rfl⟩ := h.enclosed
  cases parameters with
  | nil =>
    obtain rfl : p.step = m := hrow
    exact .none hleft hright
  | cons parameter rest => exact .some hleft (parameterRow_of_spells hfit hrow hright)

/-- A function behind its name. -/
theorem functionBody_of_spells {around : Surroundings} {function : Function}
    (hdialect : around.dialect = dialect) (hnesting : function.nesting ≤ depth)
    (hwellFormed : function.WellFormed around) (h : Spells line (function.bodyWords dialect) p q) :
    FunctionBody dialect (ofDepth dialect depth) function p q := by
  obtain ⟨name, isLocal, parameters, body, placement⟩ := function
  obtain ⟨hfit, hbody, -⟩ := hwellFormed
  rw [hdialect] at hfit
  obtain ⟨m, hparameters, hrest⟩ := spells_append.mp h
  obtain ⟨r, hstatements, hend, hstop⟩ :=
    block_of_spells_between hs hdialect hnesting hbody hrest (by decide)
  obtain rfl : r.step = q := hstop
  exact .mk (parameters_of_spells hfit hparameters) hstatements hend

end

end Writing

end LuaSyntax
