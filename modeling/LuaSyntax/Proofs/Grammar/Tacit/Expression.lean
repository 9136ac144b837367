import LuaSyntax.Proofs.Grammar.Scoping.Block
import LuaSyntax.Proofs.Grammar.Twins.Books
import LuaSyntax.Grammar.Expression

/-!
# Blocks and expressions whose names are not resolved

Where scopes are switched off, a parse leaves them alone and says nothing of its names: none is said to be local
and no block keeps a list of names. A rule is `Tacit` if that is so of what it reads, and rules that are put
together from tacit ones are tacit. Only at its leaves could an expression say whether a name is local, and there
it is not asked.
-/

namespace LuaSyntax

/-- Whether nothing is said of what the names in a thing denote: of its annotations there are only places. -/
def Reticent {α : Type} [Erasable α] (v : α) : Prop :=
  Erasable.erase .placements v = Erasable.erase .annotations v

section

variable {α : Type} [Erasable α] {a : α} {l m : List α}

/-- What is there says nothing of its names if the thing does not. -/
@[simp] theorem reticent_some : Reticent (some a) ↔ Reticent a := by simp [Reticent, Erasable.erase]

/-- An empty list says nothing. -/
@[simp] theorem reticent_nil : Reticent ([] : List α) := rfl

/-- A list says nothing of its names if no item does. -/
@[simp] theorem reticent_cons : Reticent (a :: l) ↔ Reticent a ∧ Reticent l := by simp [Reticent, Erasable.erase]

/-- Lists one behind the other say nothing if neither does. -/
@[simp] theorem reticent_append : Reticent (l ++ m) ↔ Reticent l ∧ Reticent m := by
  induction l with
  | nil => simp
  | cons a l ih => rw [List.cons_append, reticent_cons, reticent_cons, ih, and_assoc]

end

variable {arguments : List Expression} {name : Identifier}

/-- Expressions that say nothing of their names say nothing one by one. -/
theorem Reticent.expressions (h : Reticent arguments) :
    eraseExpressions .placements arguments = eraseExpressions .annotations arguments := by
  rw [eraseExpressions_eq, eraseExpressions_eq]
  exact h

/-- An expression that may be missing says nothing if it is missing or does not. -/
theorem Reticent.expression? {expression : Option Expression} (h : Reticent expression) :
    eraseExpression? .placements expression = eraseExpression? .annotations expression := by
  rw [eraseExpression?_eq, eraseExpression?_eq]
  exact h

/-- Statements that say nothing of their names say nothing one by one. -/
theorem Reticent.statements {statements : List Statement} (h : Reticent statements) :
    eraseStatements .placements statements = eraseStatements .annotations statements := by
  rw [eraseStatements_eq, eraseStatements_eq]
  exact h

/-- A block says nothing if its statements do not and it keeps no names. -/
theorem reticent_block {statements : List Statement} {scope : Option (List Binding)} (h : Reticent statements)
    (hscope : Reticent scope) : Reticent (Block.mk statements scope) :=
  congrArg₂ Block.mk h.statements hscope

/-- A name that is not said to be local is not so as an expression. -/
theorem reticent_nameExpression (h : Reticent name) : Reticent (Expression.identifier name) :=
  congrArg Expression.identifier h

/-- A member says nothing if its base does not. -/
theorem reticent_member {base : Expression} (hbase : Reticent base) (indexer : Indexer) (hname : Reticent name)
    (placement : Placement) : Reticent (Expression.member base indexer name placement) :=
  congrArg₂ (Expression.member · indexer · .none) hbase hname

namespace Grammar

open Rule

variable {α β : Type} [Erasable α] [Erasable β]

namespace Rule

/-- A rule that leaves scopes alone that are switched off, and reads a thing that says nothing of its names. -/
def Tacit (r : Rule α) : Prop := ∀ scope : Scope, scope.enabled = false →
  r.Leads (fun s => s.scope = scope) fun v s => Reticent v ∧ s.scope = scope

namespace Tacit

variable {r q : Rule α} {f : α → Rule β} {v : α}

/-- Tacit rules one behind the other are tacit. -/
theorem bind (h : r.Tacit) (hf : ∀ v, Reticent v → (f v).Tacit) : (r >>= f).Tacit :=
  fun scope hoff => (h scope hoff).bindKnown fun v hv => hf v hv scope hoff

omit [Erasable α] in
/-- A rule that leaves the scope alone in any case, before another. -/
theorem behind (h : r.Unscoped) (hf : ∀ v, (f v).Tacit) : (r >>= f).Tacit :=
  fun scope hoff => (h scope).bind fun v => hf v scope hoff

/-- A value that says nothing may be given. -/
theorem give (h : Reticent v) : (pure v : Rule α).Tacit := fun _ _ => .give fun _ hs => ⟨h, hs⟩

/-- A choice is tacit if both rules are. -/
theorem ite {c : Bool} (h : r.Tacit) (hq : q.Tacit) : (if c = true then r else q).Tacit :=
  fun scope hoff => .ite (fun _ => h scope hoff) fun _ => hq scope hoff

/-- A rule that may come between two others. -/
theorem branch {c : Bool} {q : Rule β} (h : r.Tacit) (hq : q.Tacit) :
    (if c = true then r >>= fun _ => q else q).Tacit :=
  .ite (h.bind fun _ _ => hq) hq

/-- A rule that fails is tacit, since it gives nothing. -/
theorem of_fails (h : r.Fails) : r.Tacit := fun _ _ => .of_fails h

/-- What is there may be given as something that might have been missing. -/
theorem some (h : r.Tacit) : (r >>= fun v => pure (some v)).Tacit :=
  h.bind fun _ hv => .give (reticent_some.mpr hv)

/-- A repetition is tacit if a turn is. -/
theorem repeated {turn : Rule (Turn α)} (h : turn.Tacit) : (Rule.repeated turn).Tacit := by
  intro scope hoff
  have hturn (items : List α) : turn.Leads (fun s => Reticent items ∧ s.scope = scope)
      fun v s => Reticent (items ++ v.items) ∧ s.scope = scope := by
    apply Leads.of_known
    intro hitems
    refine (h scope hoff).mono (fun _ hs => hs) fun v s ⟨hv, hs⟩ => ⟨reticent_append.mpr ⟨hitems, ?_⟩, hs⟩
    cases v with
    | stop => exact reticent_nil
    | last item => exact reticent_cons.mpr ⟨Turn.last.inj hv, reticent_nil⟩
    | more item => exact reticent_cons.mpr ⟨Turn.more.inj hv, reticent_nil⟩
  exact (Leads.repeated hturn).mono (fun _ hs => ⟨reticent_nil, hs⟩) fun _ _ hs => hs

/-- A row of items is tacit if an item is. -/
theorem many {item : Rule (Option α)} (h : item.Tacit) : (Rule.many item).Tacit := by
  refine repeated (h.bind fun v hv => ?_)
  cases v with
  | none => exact .give rfl
  | some item => exact .give (congrArg Turn.more (reticent_some.mp hv))

/-- Steps from a value that says nothing are tacit if each is. -/
theorem iterated {step : α → Rule (Option α)} (h : ∀ value, Reticent value → (step value).Tacit)
    {value : α} (hvalue : Reticent value) : (Rule.iterated step value).Tacit := by
  intro scope hoff
  have hstep (value : α) : (step value).Leads (fun s => Reticent value ∧ s.scope = scope)
      fun v s => Reticent (v.getD value) ∧ s.scope = scope := by
    apply Leads.of_known
    intro hvalue
    refine (h value hvalue scope hoff).mono (fun _ hs => hs) fun v s ⟨hv, hs⟩ => ⟨?_, hs⟩
    cases v with
    | none => exact hvalue
    | some next => exact reticent_some.mp hv
  exact (Leads.iterated hstep value).mono (fun _ hs => ⟨hvalue, hs⟩) fun _ _ hs => hs

theorem refuse : (Rule.refuse : Rule α).Tacit := fun _ _ => .refuse

theorem demand (wanted : String) : (Rule.demand wanted : Rule α).Tacit := of_fails fun _ _ => ⟨_, _, rfl⟩

theorem blame (token : Token) (message : Message) (arguments : List String) :
    (Rule.blame token message arguments : Rule α).Tacit := of_fails fun _ _ => ⟨_, _, rfl⟩

theorem complain (message : Message) : (Rule.complain message : Rule α).Tacit :=
  of_fails fun _ _ => ⟨_, _, rfl⟩

end Tacit

/-! ## Scopes that are switched off -/

/-- Where scopes are switched off none is opened. -/
theorem tacit_openScope : openScope.Tacit := by
  intro scope hoff context s v s' hs hrun
  subst hs
  simp only [openScope, state, Bind.bind, Pure.pure, andThen, give, hoff, Bool.false_eq_true, if_false] at hrun
  cases hrun
  exact ⟨rfl, rfl⟩

/-- Where scopes are switched off a block keeps no names. -/
theorem tacit_closeScope : closeScope.Tacit := by
  intro scope hoff context s v s' hs hrun
  subst hs
  simp only [closeScope, state, modify, Bind.bind, Pure.pure, andThen, give, Scope.pop, hoff, Bool.false_eq_true,
    if_false] at hrun
  cases hrun
  exact ⟨rfl, rfl⟩

/-- Where scopes are switched off a declared name is not said to be local. -/
theorem tacit_declare (hname : Reticent name) : (declare name).Tacit := by
  intro scope hoff context s v s' hs hrun
  subst hs
  simp only [declare, state, modify, Bind.bind, Pure.pure, andThen, give, Scope.declare, hoff, Bool.false_eq_true,
    if_false] at hrun
  cases hrun
  exact ⟨hname, rfl⟩

/-- Where scopes are switched off declared names are not said to be local. -/
theorem tacit_declareAll {names : List Identifier} (h : Reticent names) : (declareAll names).Tacit := by
  induction names with
  | nil => exact .give rfl
  | cons name rest ih =>
    obtain ⟨hname, hrest⟩ := reticent_cons.mp h
    exact (tacit_declare hname).bind fun _ hdeclared => (ih hrest).bind fun _ hothers =>
      .give (reticent_cons.mpr ⟨hdeclared, hothers⟩)

/-- Where scopes are switched off a bare name is not told of. -/
theorem tacit_declareName (name : String) : (declareName name).Tacit := by
  intro scope hoff context s v s' hs hrun
  subst hs
  simp only [declareName, state, modify, Bind.bind, Pure.pure, andThen, give, Scope.declareName, hoff,
    Bool.false_eq_true, if_false] at hrun
  cases hrun
  exact ⟨rfl, rfl⟩

end Rule

/-! ## Leaves -/

/-- A name that was read says nothing of what it is. -/
theorem tacit_identifier : identifier.Tacit := fun _ _ =>
  identifier_leads.mono (fun _ hs => hs) fun name s ⟨hname, hs⟩ => by
    have hlocal : name.isLocal = false := (congrArg Identifier.isLocal hname).symm
    exact ⟨congrArg (Identifier.mk name.name · .none) hlocal, hs⟩

/-- Where scopes are switched off a name is not resolved. -/
theorem tacit_resolved : resolved.Tacit := by
  refine tacit_identifier.bind fun name hname => ?_
  intro scope hoff context s v s' hs hrun
  subst hs
  have hresolve : s.scope.resolve name = (false, name, s.scope) := by
    rw [Scope.resolve, hoff, if_neg Bool.false_ne_true]
  obtain ⟨rfl, rfl⟩ : v = (s.scope.resolve name).2.1 ∧ s' = { s with scope := (s.scope.resolve name).2.2 } := by
    cases hrun
    exact ⟨rfl, rfl⟩
  rw [hresolve]
  exact ⟨hname, rfl⟩

/-- A declared name says nothing of what it is. -/
theorem tacit_declarator : declarator.Tacit := by
  refine .behind unscoped_mark fun start => tacit_identifier.bind fun name hname => ?_
  have hplain : (pure (.plain name) : Rule Declarator).Tacit := .give (congrArg Declarator.plain hname)
  refine .behind (unscoped_has _) fun _ => .behind (unscoped_at? _) fun _ => .ite ?_ hplain
  refine .behind unscoped_advance fun _ => tacit_identifier.bind fun type htype => ?_
  refine .behind (unscoped_placed start) fun _ => .behind (unscoped_complete _) fun _ => .give ?_
  exact congrArg₂ (fun name type => Declarator.typed ⟨name, type, .none⟩) hname htype

/-- An expression that says nothing may be completed. -/
theorem tacit_completed {expression : Expression} (h : Reticent expression) : (completed expression).Tacit :=
  .behind (unscoped_complete _) fun _ => .give h

/-- A member says nothing if its base does not. -/
theorem tacit_member {base : Expression} (hbase : Reticent base) (indexer : Indexer) (hname : Reticent name)
    (start : Place) : (member base indexer name start).Tacit :=
  .behind (unscoped_placed start) fun _ => tacit_completed (reticent_member hbase indexer hname _)

/-! ## Blocks -/

/-- Rules for what is nested that say nothing of names. -/
structure Nested.Tacit (nested : Nested) : Prop where
  statement : nested.statement.Tacit
  expression : ∀ level, (nested.expression level).Tacit

section

variable {nested : Nested} (hn : nested.Tacit)

include hn

/-- A part of a block says nothing of its names. -/
theorem tacit_blockTurn : (blockTurn nested).Tacit := by
  refine .behind unscoped_current fun token => .ite (.give rfl) ?_
  refine .behind (unscoped_has _) fun _ => hn.statement.bind fun statement hstatement => .ite (.ite ?_ ?_) ?_
  · exact .behind (unscoped_consume _) fun _ => .give (congrArg Turn.last hstatement)
  · exact .give (congrArg Turn.last hstatement)
  · exact .behind (unscoped_consume _) fun _ => .give (congrArg Turn.more hstatement)

omit hn in
/-- Empty statements say nothing when they are left out. -/
theorem reticent_filterMap {statements : List (Option Statement)} (h : Reticent statements) :
    Reticent (statements.filterMap id) := by
  induction statements with
  | nil => rfl
  | cons statement rest ih =>
    obtain ⟨hstatement, hrest⟩ := reticent_cons.mp h
    cases statement with
    | none => exact ih hrest
    | some statement => exact reticent_cons.mpr ⟨reticent_some.mp hstatement, ih hrest⟩

/-- The statements of a block say nothing of their names. -/
theorem tacit_statements : (statements nested).Tacit :=
  (Tacit.repeated (tacit_blockTurn hn)).bind fun _ h => .give (reticent_filterMap h)

/-- A block keeps no names, since no scope is opened for it. -/
theorem tacit_scopedBlock (isLoop : Bool) : (scopedBlock nested isLoop).Tacit := by
  refine tacit_openScope.bind fun _ _ => .behind (unscoped_openBlock isLoop) fun _ => ?_
  refine (tacit_statements hn).bind fun body hbody => .behind unscoped_closeBlock fun _ => ?_
  exact tacit_closeScope.bind fun scope hscope => .give (reticent_block hbody hscope)

end

/-! ## Functions -/

/-- A parameter says nothing if its name does not. -/
theorem tacit_declaredParameter {name : Declarator} (h : Reticent name) : (declaredParameter name).Tacit := by
  cases name with
  | plain name =>
    refine (tacit_declare (Declarator.plain.inj h)).bind fun _ hdeclared => .give ?_
    exact congrArg Parameter.plain hdeclared
  | typed typed =>
    obtain ⟨hname, htype, -⟩ := TypedIdentifier.mk.inj (Declarator.typed.inj h)
    refine (tacit_declare hname).bind fun _ hdeclared => .give ?_
    exact congrArg₂ (fun name type => Parameter.typed ⟨name, type, .none⟩) hdeclared htype

/-- A turn of a list of parameters says nothing of its name. -/
theorem tacit_parameterTurn : parameterTurn.Tacit := by
  refine .behind unscoped_current fun token => ?_
  split
  · refine tacit_declarator.bind fun name hname => (tacit_declaredParameter hname).bind fun parameter hparameter => ?_
    refine .behind (unscoped_consume _) fun _ => .ite (.give (congrArg Turn.more hparameter)) ?_
    exact .behind (unscoped_expect _) fun _ => .give (congrArg Turn.last hparameter)
  · refine .behind (unscoped_modify fun _ => rfl) fun _ => .behind unscoped_literal fun dots => ?_
    exact .behind (unscoped_expect _) fun _ => .give rfl
  · exact .demand _

theorem tacit_parameters : parameters.Tacit :=
  .behind (unscoped_expect _) fun _ => .behind (unscoped_consume _) fun _ =>
    .ite (.give rfl) (.repeated tacit_parameterTurn)

/-- A function says nothing if its name does not. -/
theorem tacit_functionBody {nested : Nested} (hn : nested.Tacit) {name : Option Expression}
    (hname : Reticent name) (isLocal isMethod : Bool) (start : Place) :
    (functionBody nested name isLocal isMethod start).Tacit := by
  refine tacit_openScope.bind fun _ _ => .branch (tacit_declareName _) ?_
  refine .behind unscoped_state fun _ => .behind (unscoped_setJumps _) fun _ => ?_
  refine .behind (unscoped_openBlock _) fun _ => tacit_parameters.bind fun parameters hparameters => ?_
  refine (tacit_statements hn).bind fun body hbody => .behind unscoped_closeBlock fun _ => ?_
  refine .behind (unscoped_setJumps _) fun _ => .behind (unscoped_expect _) fun _ => ?_
  refine tacit_closeScope.bind fun scope hscope => .behind (unscoped_placed start) fun _ => .give ?_
  have hheader := congrArg₂ (fun name parameters body => Function.mk name isLocal parameters body .none)
    hname.expression? hparameters
  have hblock : (Block.mk body scope).erase .placements = (Block.mk body scope).erase .annotations :=
    reticent_block hbody hscope
  exact (congr hheader hblock :)

/-- A longer name of a function says nothing if the shorter one does not. -/
theorem tacit_nameStep (start : Place) {base : Expression} (hbase : Reticent base) : (nameStep start base).Tacit := by
  refine .behind (unscoped_consume _) fun _ => .ite ?_ (.give rfl)
  exact tacit_identifier.bind fun name hname => .some (tacit_member hbase .dot hname start)

theorem tacit_functionName : functionName.Tacit := by
  refine .behind unscoped_mark fun start => tacit_resolved.bind fun name hname => ?_
  refine (Tacit.iterated (fun _ => tacit_nameStep start) (reticent_nameExpression hname)).bind fun base hbase => ?_
  refine .behind (unscoped_consume _) fun _ => .ite ?_ (.give (congrArg (·, false) hbase))
  refine tacit_identifier.bind fun name hname => ?_
  exact (tacit_member hbase .colon hname start).bind fun _ hmember => .give (congrArg (·, true) hmember)

end Grammar

/-! ## Expressions -/

variable {fields : List TableField}

/-- Fields of tables that say nothing of their names say nothing one by one. -/
theorem Reticent.tableFields (h : Reticent fields) :
    eraseTableFields .placements fields = eraseTableFields .annotations fields := by
  rw [eraseTableFields_eq, eraseTableFields_eq]
  exact h

/-- Fields of structures that say nothing of their names say nothing one by one. -/
theorem Reticent.makeFields {fields : List MakeField} (h : Reticent fields) :
    eraseMakeFields .placements fields = eraseMakeFields .annotations fields := by
  rw [eraseMakeFields_eq, eraseMakeFields_eq]
  exact h

namespace Grammar

open Rule

variable {base : Expression}

/-- What has to be there is tacit if what might have been missing is. -/
theorem tacit_required {r : Rule (Option Expression)} (h : r.Tacit) : (required r).Tacit :=
  h.bind fun expression? hexpression => by
    cases expression? with
    | none => exact .demand _
    | some expression => exact .give (reticent_some.mp hexpression)

variable {nested : Nested} (hn : nested.Tacit)

include hn

/-- Expressions are tacit. -/
theorem tacit_expression : (expression nested).Tacit := tacit_required (hn.expression 0)

theorem tacit_commaExpression : (commaExpression nested).Tacit :=
  .behind (unscoped_consume _) fun _ => .ite (.some (tacit_expression hn)) (.give rfl)

theorem tacit_expressionList : (expressionList nested).Tacit :=
  (tacit_expression hn).bind fun _ hfirst => (Tacit.many (tacit_commaExpression hn)).bind fun _ hothers =>
    .give (reticent_cons.mpr ⟨hfirst, hothers⟩)

theorem tacit_optionalList : (optionalList nested).Tacit := by
  refine (hn.expression 0).bind fun first? hfirst => ?_
  cases first? with
  | none => exact .give rfl
  | some first =>
    refine (Tacit.many (tacit_commaExpression hn)).bind fun others hothers => ?_
    exact .give (reticent_cons.mpr ⟨reticent_some.mp hfirst, hothers⟩)

/-! ### Constructors -/

/-- A field of a table says nothing of its names. -/
theorem tacit_tableField : (tableField nested).Tacit := by
  refine .behind unscoped_mark fun start => .behind (unscoped_consume _) fun _ => .ite ?_ ?_
  · refine (tacit_expression hn).bind fun key hkey => .behind (unscoped_expect _) fun _ => ?_
    refine .behind (unscoped_expect _) fun _ => (tacit_expression hn).bind fun value hvalue => ?_
    refine .behind (unscoped_placed start) fun _ => .give (reticent_some.mpr ?_)
    exact congrArg₂ (TableField.keyed · · .none) hkey hvalue
  refine .behind unscoped_current fun _ => .behind unscoped_state fun _ => .ite ?_ ?_
  · refine tacit_identifier.bind fun name hname => .behind unscoped_advance fun _ => ?_
    refine (tacit_expression hn).bind fun value hvalue => .behind (unscoped_placed start) fun _ => ?_
    exact .give (reticent_some.mpr (congrArg₂ (TableField.named · · .none) hname hvalue))
  refine (hn.expression 0).bind fun value? hvalue => ?_
  cases value? with
  | none => exact .give rfl
  | some value =>
    refine .behind (unscoped_placed start) fun _ => .give (reticent_some.mpr ?_)
    exact congrArg (TableField.positional · .none) (reticent_some.mp hvalue)

theorem tacit_tableTurn : (tableTurn nested).Tacit := by
  refine (tacit_tableField hn).bind fun field? hfield => ?_
  cases field? with
  | none => exact .give rfl
  | some field =>
    have hfield := reticent_some.mp hfield
    refine .behind (unscoped_complete _) fun _ => .behind (unscoped_at? _) fun _ => ?_
    refine .behind (unscoped_at? _) fun _ => .ite ?_ (.give (congrArg Turn.last hfield))
    exact .behind unscoped_advance fun _ => .give (congrArg Turn.more hfield)

/-- A table says nothing of its names. -/
theorem tacit_tableBody (start : Place) : (tableBody nested start).Tacit := by
  refine (Tacit.repeated (tacit_tableTurn hn)).bind fun fields hfields => ?_
  refine .behind (unscoped_expect _) fun _ => .behind (unscoped_placed start) fun _ => ?_
  refine .behind (unscoped_complete _) fun _ => .give ?_
  exact congrArg (Table.mk · .none) hfields.tableFields

theorem tacit_makeTurn : (makeTurn nested).Tacit := by
  refine .behind (unscoped_at? _) fun _ => .ite (.give rfl) ?_
  refine .behind unscoped_mark fun start => tacit_identifier.bind fun key hkey => ?_
  refine .behind (unscoped_expect _) fun _ => (tacit_expression hn).bind fun value hvalue => ?_
  refine .behind (unscoped_placed start) fun placement => .behind (unscoped_complete _) fun _ => ?_
  have hfield : Reticent (MakeField.mk key value placement) := congrArg₂ (MakeField.mk · · .none) hkey hvalue
  refine .behind (unscoped_at? _) fun _ => .behind (unscoped_at? _) fun _ => ?_
  refine .ite ?_ (.give (congrArg Turn.last hfield))
  exact .behind unscoped_advance fun _ => .give (congrArg Turn.more hfield)

/-- A structure says nothing of its names. -/
theorem tacit_makeBody (start : Place) : (makeBody nested start).Tacit := by
  refine tacit_identifier.bind fun type htype => .behind (unscoped_expect _) fun _ => ?_
  refine (Tacit.repeated (tacit_makeTurn hn)).bind fun fields hfields => ?_
  refine .behind (unscoped_expect _) fun _ => .behind (unscoped_placed start) fun _ => tacit_completed ?_
  exact congrArg₂ (Expression.make · · .none) htype hfields.makeFields

/-- A primary expression says nothing of its names, a function in it included. -/
theorem tacit_primary : (primary nested).Tacit := by
  refine .behind unscoped_mark fun start => .behind unscoped_current fun token => .ite ?_ ?_
  · refine .behind unscoped_state fun _ => .ite (.blame _ _ _) ?_
    exact .behind unscoped_literal fun leaf => .give rfl
  refine .behind (unscoped_consume _) fun _ => .ite ?_ ?_
  · refine (tacit_functionBody hn (show Reticent none from rfl) false false start).bind fun function hfunction => ?_
    exact .some (tacit_completed (congrArg Expression.function hfunction))
  refine .behind (unscoped_consume _) fun _ => .ite ?_ ?_
  · refine (tacit_tableBody hn start).bind fun table htable => .give (reticent_some.mpr ?_)
    exact congrArg Expression.table htable
  exact .behind (unscoped_consume _) fun _ => .ite (.some (tacit_makeBody hn start)) (.give rfl)

/-! ### Suffixes -/

/-- A call says nothing if what is called does not. -/
theorem tacit_callArguments (hbase : Reticent base) (start : Place) : (callArguments nested base start).Tacit := by
  refine .behind unscoped_current fun token => .ite ?_ (.ite ?_ (.ite ?_ (.demand _)))
  · refine .behind (unscoped_has _) fun _ => .behind unscoped_state fun _ => .ite (.blame _ _ _) ?_
    refine .behind unscoped_advance fun _ => (tacit_optionalList hn).bind fun arguments harguments => ?_
    refine .behind (unscoped_expect _) fun _ => .behind (unscoped_placed start) fun _ => tacit_completed ?_
    exact congrArg₂ (Expression.call · · .none) hbase harguments.expressions
  · refine .behind unscoped_mark fun tableStart => .behind unscoped_advance fun _ => ?_
    refine (tacit_tableBody hn tableStart).bind fun table htable => .behind (unscoped_placed start) fun _ => ?_
    exact tacit_completed (congrArg₂ (Expression.tableCall · · .none) hbase htable)
  · refine .behind unscoped_literal fun leaf => .behind (unscoped_placed start) fun _ => tacit_completed ?_
    exact congrArg (Expression.stringCall · (leaf.erase .annotations) .none) hbase

/-- A suffix says nothing if its base does not. -/
theorem tacit_suffix (hbase : Reticent base) (start : Place) : (suffix nested start base).Tacit := by
  refine .behind (unscoped_consume _) fun _ => .ite ?_ ?_
  · refine (tacit_expression hn).bind fun index hindex => .behind (unscoped_expect _) fun _ => ?_
    refine .behind (unscoped_placed start) fun _ => tacit_completed ?_
    exact congrArg₂ (Expression.index · · .none) hbase hindex
  refine .behind (unscoped_consume _) fun _ => .ite ?_ ?_
  · exact tacit_identifier.bind fun name hname => tacit_member hbase .dot hname start
  refine .behind (unscoped_consume _) fun _ => .ite ?_ (tacit_callArguments hn hbase start)
  refine tacit_identifier.bind fun name hname => ?_
  exact (tacit_member hbase .colon hname start).bind fun method hmethod => tacit_callArguments hn hmethod start

theorem tacit_suffixStep (start : Place) (hbase : Reticent base) : (suffixStep nested start base).Tacit :=
  .behind unscoped_current fun _ => .ite (.some (tacit_suffix hn hbase start)) (.give rfl)

/-- What stands in parentheses says nothing of its names. -/
theorem tacit_parenthesised : (parenthesised nested).Tacit :=
  (tacit_expression hn).bind fun _ hinner => .behind (unscoped_expect _) fun _ => .give hinner

/-- Something with suffixes begins with a name that is not resolved. -/
theorem tacit_suffixed : (suffixed nested).Tacit := by
  refine .behind unscoped_mark fun start => .behind unscoped_current fun _ => .ite ?_ ?_
  · refine tacit_resolved.bind fun name hname => .some ?_
    exact .iterated (fun _ => tacit_suffixStep hn start) (reticent_nameExpression hname)
  refine .behind (unscoped_consume _) fun _ => .ite ?_ (.give rfl)
  refine (tacit_parenthesised hn).bind fun inner hinner => .some ?_
  exact .iterated (fun _ => tacit_suffixStep hn start) hinner

/-! ### Operators -/

/-- An operand says nothing of its names. -/
theorem tacit_operand (start : Place) : (operand nested start).Tacit := by
  refine .behind unscoped_current fun token => ?_
  cases UnaryOperator.ofToken? token.value with
  | some operator =>
    refine .behind unscoped_advance fun _ => (tacit_required (hn.expression _)).bind fun argument hargument => ?_
    refine .behind (unscoped_placed start) fun _ => .some (tacit_completed ?_)
    exact congrArg (Expression.unary operator · .none) hargument
  | none =>
    refine (tacit_primary hn).bind fun first? hfirst => ?_
    cases first? with
    | some first => exact .give hfirst
    | none => exact tacit_suffixed hn

omit hn in
/-- Joined operands say nothing if neither does. -/
theorem reticent_joined {left right : Expression} (operator : Operator) (hleft : Reticent left)
    (hright : Reticent right) (placement : Placement) : Reticent (joined operator left right placement) := by
  cases operator with
  | logical known => exact congrArg₂ (Expression.logical known · · .none) hleft hright
  | binary known => exact congrArg₂ (Expression.binary known · · .none) hleft hright

/-- A step over an operator says nothing if the operand on its left does not. -/
theorem tacit_operatorStep (level : Nat) (start : Place) {left : Expression} (hleft : Reticent left) :
    (operatorStep nested level start left).Tacit := by
  refine .behind unscoped_current fun token => ?_
  cases Operator.ofToken? token.value with
  | none => exact .give rfl
  | some operator =>
    show Tacit (if operator.level ≤ level then _ else _)
    split
    · exact .give rfl
    refine .behind unscoped_advance fun _ => (tacit_required (hn.expression _)).bind fun right hright => ?_
    refine .behind (unscoped_placed start) fun _ => .some (tacit_completed ?_)
    exact reticent_joined operator hleft hright _

/-- Rows of operands say nothing of their names. -/
theorem tacit_operation (level : Nat) : (operation nested level).Tacit := by
  refine .behind unscoped_mark fun start => (tacit_operand hn start).bind fun first? hfirst => ?_
  cases first? with
  | none => exact .give rfl
  | some first => exact .some (.iterated (fun _ => tacit_operatorStep hn level start) (reticent_some.mp hfirst))

end Grammar

end LuaSyntax
