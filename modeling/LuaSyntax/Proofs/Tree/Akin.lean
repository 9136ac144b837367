import Mathlib.Logic.Basic
import LuaSyntax.Grammar.Rule
import LuaSyntax.Proofs.Tree.Erasure

/-!
# Trees that are akin

Two trees are akin if nothing but annotations tells them apart, and these only as far as an erasure takes
them away. Nodes are akin if their parts are and they stand in places that are akin. Nothing is taken
away from what is no part of a tree, such as a token. Trees that differ at most in what `Erasure.nothing`
takes away are equal, since it leaves every tree as it is.
-/

namespace LuaSyntax

/-- Things in which annotations can be erased. -/
class Erasable (α : Type) where
  erase : Erasure → α → α

/-- Whether two things differ at most in what an erasure takes away. -/
def Akin {α : Type} [Erasable α] (erasure : Erasure) (a b : α) : Prop :=
  Erasable.erase erasure a = Erasable.erase erasure b

/-- Takes nothing away. -/
def Erasure.nothing : Erasure := ⟨id, id, id⟩

/-! ## Plain data -/

instance : Erasable Unit := ⟨fun _ => id⟩

instance : Erasable Bool := ⟨fun _ => id⟩

instance : Erasable Place := ⟨fun _ => id⟩

instance : Erasable Token := ⟨fun _ => id⟩

instance : Erasable Placement := ⟨Erasure.placement⟩

instance (priority := 2000) : Erasable (Option (List Binding)) := ⟨Erasure.scope⟩

instance {α : Type} [Erasable α] : Erasable (Option α) :=
  ⟨fun erasure => Option.map (Erasable.erase erasure)⟩

instance {α : Type} [Erasable α] : Erasable (List α) :=
  ⟨fun erasure => List.map (Erasable.erase erasure)⟩

instance {α β : Type} [Erasable α] [Erasable β] : Erasable (α × β) :=
  ⟨fun erasure => Prod.map (Erasable.erase erasure) (Erasable.erase erasure)⟩

instance {α : Type} [Erasable α] : Erasable (Grammar.Turn α) where
  erase erasure
    | .stop => .stop
    | .last item => .last (Erasable.erase erasure item)
    | .more item => .more (Erasable.erase erasure item)

variable {erasure : Erasure}

namespace Akin

variable {α : Type} [Erasable α] {a b c : α}

/-- A value is akin to itself. -/
@[refl] theorem refl (a : α) : Akin erasure a a := Eq.refl _

/-- Of two akin values each is akin to the other. -/
theorem symm (h : Akin erasure a b) : Akin erasure b a := Eq.symm h

/-- What is akin to a value is akin to what that value is akin to. -/
theorem trans (h : Akin erasure a b) (h' : Akin erasure b c) : Akin erasure a c := Eq.trans h h'

/-- What does not depend on annotations is equal for things that are akin. -/
theorem map_eq {γ : Type} (f : α → γ) (h : Akin erasure a b)
    (hf : ∀ a, f (Erasable.erase erasure a) = f a) : f a = f b := by
  rw [← hf a, ← hf b]
  exact congrArg f h

end Akin

/-- Where there is nothing to differ, values are akin. -/
@[simp] theorem akin_unit {a b : Unit} : Akin erasure a b := Eq.refl _

/-- Truth values are akin exactly when they are equal. -/
@[simp] theorem akin_bool {a b : Bool} : Akin erasure a b ↔ a = b := Iff.rfl

/-- Places are akin exactly when they are equal. -/
@[simp] theorem akin_place {a b : Place} : Akin erasure a b ↔ a = b := Iff.rfl

/-- Tokens are akin exactly when they are equal. -/
@[simp] theorem akin_token {a b : Token} : Akin erasure a b ↔ a = b := Iff.rfl

section

variable {α β : Type} [Erasable α] [Erasable β] {a b : α} {l m : List α}

/-- Values that are there are akin exactly when they are. -/
@[simp] theorem akin_some : Akin erasure (some a) (some b) ↔ Akin erasure a b := by
  simp [Akin, Erasable.erase]

/-- A value is not akin to none. -/
@[simp] theorem not_akin_none_some : ¬ Akin erasure none (some a) := by simp [Akin, Erasable.erase]

/-- No value is not akin to one. -/
@[simp] theorem not_akin_some_none : ¬ Akin erasure (some a) none := by simp [Akin, Erasable.erase]

/-- Lists are akin exactly when their heads and their tails are. -/
@[simp] theorem akin_cons : Akin erasure (a :: l) (b :: m) ↔ Akin erasure a b ∧ Akin erasure l m := by
  simp [Akin, Erasable.erase]

/-- The empty list is not akin to another. -/
@[simp] theorem not_akin_nil_cons : ¬ Akin erasure [] (b :: m) := by simp [Akin, Erasable.erase]

@[simp] theorem not_akin_cons_nil : ¬ Akin erasure (a :: l) [] := by simp [Akin, Erasable.erase]

/-- Pairs are akin exactly when both parts are. -/
@[simp] theorem akin_mk {c d : β} :
    Akin erasure (a, c) (b, d) ↔ Akin erasure a b ∧ Akin erasure c d := by
  simp [Akin, Erasable.erase, Prod.map]

/-- Turns that end are akin exactly when their values are. -/
@[simp] theorem akin_last : Akin erasure (Grammar.Turn.last a) (.last b) ↔ Akin erasure a b := by
  simp [Akin, Erasable.erase]

/-- Turns that go on are akin exactly when their values are. -/
@[simp] theorem akin_more : Akin erasure (Grammar.Turn.more a) (.more b) ↔ Akin erasure a b := by
  simp [Akin, Erasable.erase]

/-- Of akin lists both are empty or neither is. -/
theorem Akin.isEmpty_eq (h : Akin erasure l m) : l.isEmpty = m.isEmpty :=
  h.map_eq List.isEmpty fun _ => List.isEmpty_map

/-- Akin lists put together are akin. -/
theorem Akin.append {l' m' : List α} (h : Akin erasure l m) (h' : Akin erasure l' m') :
    Akin erasure (l ++ l') (m ++ m') := by
  simp only [Akin, Erasable.erase, List.map_append] at h h' ⊢
  rw [h, h']

/-- Rows without gaps are akin if the rows with gaps are. -/
theorem Akin.filterMap_id {l m : List (Option α)} (h : Akin erasure l m) :
    Akin erasure (l.filterMap id) (m.filterMap id) := by
  induction l generalizing m with
  | nil =>
    cases m with
    | nil => rfl
    | cons b m => exact absurd h not_akin_nil_cons
  | cons a l ih =>
    cases m with
    | nil => exact absurd h not_akin_cons_nil
    | cons b m =>
      obtain ⟨hab, hlm⟩ := akin_cons.mp h
      cases a with
      | none =>
        cases b with
        | none =>
          show Akin erasure (l.filterMap id) (m.filterMap id)
          exact ih hlm
        | some b => exact absurd hab not_akin_none_some
      | some a =>
        cases b with
        | none => exact absurd hab not_akin_some_none
        | some b => exact akin_cons.mpr ⟨akin_some.mp hab, ih hlm⟩

end

/-! ## Leaves -/

instance : Erasable Identifier := ⟨fun erasure => Identifier.erase erasure⟩

instance : Erasable Literal := ⟨fun erasure => Literal.erase erasure⟩

instance : Erasable TypedIdentifier := ⟨fun erasure => TypedIdentifier.erase erasure⟩

instance : Erasable Declarator := ⟨fun erasure => Declarator.erase erasure⟩

instance : Erasable Parameter := ⟨fun erasure => Parameter.erase erasure⟩

instance : Erasable StructureEntry := ⟨fun erasure => StructureEntry.erase erasure⟩

section

variable {name name' type type' : Identifier} {placement placement' : Placement}

/-- Akin identifiers have the same name. -/
theorem Akin.name_eq (h : Akin erasure name name') : name.name = name'.name :=
  h.map_eq Identifier.name fun _ => rfl

/-- Names as they are read, before they are resolved. -/
theorem akin_name (spelling : String) (h : Akin erasure placement placement') :
    Akin erasure (Identifier.mk spelling false placement) ⟨spelling, false, placement'⟩ :=
  congrArg (Identifier.mk spelling (erasure.isLocal false)) h

/-- Literals with the same value and text are akin if their places are. -/
theorem akin_literal (value : LiteralValue) (raw : String) (h : Akin erasure placement placement') :
    Akin erasure (Literal.mk value raw placement) ⟨value, raw, placement'⟩ :=
  congrArg (Literal.mk value raw) h

/-- Names with a type are akin if their parts are. -/
theorem akin_typedIdentifier (hname : Akin erasure name name') (htype : Akin erasure type type')
    (h : Akin erasure placement placement') :
    Akin erasure (TypedIdentifier.mk name type placement) ⟨name', type', placement'⟩ :=
  (congr (congrArg₂ TypedIdentifier.mk hname htype) h :)

/-- Entries of a structure are akin if their parts are. -/
theorem akin_entry (hname : Akin erasure name name') (htype : Akin erasure type type')
    (h : Akin erasure placement placement') :
    Akin erasure (StructureEntry.mk name type placement) ⟨name', type', placement'⟩ :=
  (congr (congrArg₂ StructureEntry.mk hname htype) h :)

/-- Names without a type are akin as declarators exactly when they are. -/
@[simp] theorem akin_plain :
    Akin erasure (Declarator.plain name) (.plain name') ↔ Akin erasure name name' := by
  simp [Akin, Erasable.erase, Declarator.erase]

/-- Names with a type are akin as declarators exactly when they are. -/
@[simp] theorem akin_typed {typed typed' : TypedIdentifier} :
    Akin erasure (Declarator.typed typed) (.typed typed') ↔ Akin erasure typed typed' := by
  simp [Akin, Erasable.erase, Declarator.erase]

/-- Akin names with a type have akin names. -/
theorem Akin.typedName {typed typed' : TypedIdentifier} (h : Akin erasure typed typed') :
    Akin erasure typed.name typed'.name := congrArg TypedIdentifier.name h

/-- Akin names with a type stay akin when their names are replaced by akin ones. -/
theorem Akin.withName {typed typed' : TypedIdentifier} (h : Akin erasure typed typed')
    (hname : Akin erasure name name') :
    Akin erasure { typed with name } { typed' with name := name' } :=
  akin_typedIdentifier hname (congrArg TypedIdentifier.type h) (congrArg TypedIdentifier.placement h)

/-- Akin declarators declare akin names. -/
theorem Akin.identifier {a b : Declarator} (h : Akin erasure a b) :
    Akin erasure a.identifier b.identifier := by
  have hidentifier := congrArg Declarator.identifier h
  simpa only [Akin, Erasable.erase, Declarator.identifier_erase] using hidentifier

/-- Akin declarators stay akin when their names are replaced by akin ones. -/
theorem Akin.withIdentifier {a b : Declarator} (h : Akin erasure a b)
    (hname : Akin erasure name name') :
    Akin erasure (a.withIdentifier name) (b.withIdentifier name') := by
  simp only [Akin, Erasable.erase, Declarator.withIdentifier_erase] at h hname ⊢
  rw [h, hname]

/-! ## Nodes -/

instance : Erasable Expression := ⟨fun erasure => Expression.erase erasure⟩

instance : Erasable Table := ⟨fun erasure => Table.erase erasure⟩

instance : Erasable TableField := ⟨fun erasure => TableField.erase erasure⟩

instance : Erasable MakeField := ⟨fun erasure => MakeField.erase erasure⟩

instance : Erasable Function := ⟨fun erasure => Function.erase erasure⟩

instance : Erasable Block := ⟨fun erasure => Block.erase erasure⟩

instance : Erasable Clause := ⟨fun erasure => Clause.erase erasure⟩

instance : Erasable Statement := ⟨fun erasure => Statement.erase erasure⟩

variable {base base' index index' left left' right right' value value' : Expression}
  {arguments arguments' targets targets' : List Expression} {table table' : Table}
  {statements statements' : List Statement} {body body' : Block}
  {scope scope' : Option (List Binding)}

/-- Of akin expressions both are calls or neither is. -/
theorem Akin.isCall_eq (h : Akin erasure base base') : base.isCall = base'.isCall :=
  h.map_eq Expression.isCall (Expression.isCall_erase _)

/-- Of akin expressions both can be assigned to or neither can. -/
theorem Akin.isAssignable_eq (h : Akin erasure base base') :
    base.isAssignable = base'.isAssignable :=
  h.map_eq Expression.isAssignable (Expression.isAssignable_erase _)

/-! ### Rows -/

/-- Akin lists of expressions erase to the same list. -/
theorem Akin.expressions (h : Akin erasure arguments arguments') :
    eraseExpressions erasure arguments = eraseExpressions erasure arguments' := by
  rw [eraseExpressions_eq, eraseExpressions_eq]
  exact h

/-- Akin optional expressions erase to the same. -/
theorem Akin.expression? {expression expression' : Option Expression}
    (h : Akin erasure expression expression') :
    eraseExpression? erasure expression = eraseExpression? erasure expression' := by
  rw [eraseExpression?_eq, eraseExpression?_eq]
  exact h

/-- Akin lists of fields erase to the same list. -/
theorem Akin.tableFields {fields fields' : List TableField} (h : Akin erasure fields fields') :
    eraseTableFields erasure fields = eraseTableFields erasure fields' := by
  rw [eraseTableFields_eq, eraseTableFields_eq]
  exact h

/-- Akin lists of fields of `make` erase to the same list. -/
theorem Akin.makeFields {fields fields' : List MakeField} (h : Akin erasure fields fields') :
    eraseMakeFields erasure fields = eraseMakeFields erasure fields' := by
  rw [eraseMakeFields_eq, eraseMakeFields_eq]
  exact h

/-- Akin lists of clauses erase to the same list. -/
theorem Akin.clauses {clauses clauses' : List Clause} (h : Akin erasure clauses clauses') :
    eraseClauses erasure clauses = eraseClauses erasure clauses' := by
  rw [eraseClauses_eq, eraseClauses_eq]
  exact h

/-- Akin lists of statements erase to the same list. -/
theorem Akin.blockStatements (h : Akin erasure statements statements') :
    eraseStatements erasure statements = eraseStatements erasure statements' := by
  rw [eraseStatements_eq, eraseStatements_eq]
  exact h

/-! ### Expressions -/

/-- Names are akin as expressions if they are. -/
theorem akin_nameExpression (hname : Akin erasure name name') :
    Akin erasure (Expression.identifier name) (.identifier name') :=
  congrArg Expression.identifier hname

/-- Literals are akin as expressions if they are. -/
theorem akin_literalExpression {literal literal' : Literal} (hliteral : Akin erasure literal literal') :
    Akin erasure (Expression.literal literal) (.literal literal') :=
  congrArg Expression.literal hliteral

/-- Tables are akin as expressions if they are. -/
theorem akin_tableExpression (htable : Akin erasure table table') :
    Akin erasure (Expression.table table) (.table table') :=
  congrArg Expression.table htable

/-- Functions are akin as expressions if they are. -/
theorem akin_functionExpression {function function' : Function}
    (hfunction : Akin erasure function function') :
    Akin erasure (Expression.function function) (.function function') :=
  congrArg Expression.function hfunction

variable (hplacement : Akin erasure placement placement')

include hplacement

theorem akin_member (hbase : Akin erasure base base') (indexer : Indexer)
    (hname : Akin erasure name name') :
    Akin erasure (Expression.member base indexer name placement)
      (.member base' indexer name' placement') :=
  (congr (congrArg₂ (Expression.member · indexer ·) hbase hname) hplacement :)

theorem akin_index (hbase : Akin erasure base base') (hindex : Akin erasure index index') :
    Akin erasure (Expression.index base index placement) (.index base' index' placement') :=
  (congr (congrArg₂ Expression.index hbase hindex) hplacement :)

theorem akin_call (hbase : Akin erasure base base') (harguments : Akin erasure arguments arguments') :
    Akin erasure (Expression.call base arguments placement) (.call base' arguments' placement') :=
  (congr (congrArg₂ Expression.call hbase harguments.expressions) hplacement :)

theorem akin_tableCall (hbase : Akin erasure base base') (htable : Akin erasure table table') :
    Akin erasure (Expression.tableCall base table placement) (.tableCall base' table' placement') :=
  (congr (congrArg₂ Expression.tableCall hbase htable) hplacement :)

theorem akin_stringCall {literal literal' : Literal} (hbase : Akin erasure base base')
    (hliteral : Akin erasure literal literal') :
    Akin erasure (Expression.stringCall base literal placement)
      (.stringCall base' literal' placement') :=
  (congr (congrArg₂ Expression.stringCall hbase hliteral) hplacement :)

theorem akin_make {fields fields' : List MakeField} (htype : Akin erasure type type')
    (hfields : Akin erasure fields fields') :
    Akin erasure (Expression.make type fields placement) (.make type' fields' placement') :=
  (congr (congrArg₂ Expression.make htype hfields.makeFields) hplacement :)

theorem akin_unary (operator : UnaryOperator) (hvalue : Akin erasure value value') :
    Akin erasure (Expression.unary operator value placement) (.unary operator value' placement') :=
  congrArg₂ (Expression.unary operator) hvalue hplacement

theorem akin_binary (operator : BinaryOperator) (hleft : Akin erasure left left')
    (hright : Akin erasure right right') :
    Akin erasure (Expression.binary operator left right placement)
      (.binary operator left' right' placement') :=
  (congr (congrArg₂ (Expression.binary operator) hleft hright) hplacement :)

theorem akin_logical (operator : LogicalOperator) (hleft : Akin erasure left left')
    (hright : Akin erasure right right') :
    Akin erasure (Expression.logical operator left right placement)
      (.logical operator left' right' placement') :=
  (congr (congrArg₂ (Expression.logical operator) hleft hright) hplacement :)

/-! ### Fields and functions -/

theorem akin_table {fields fields' : List TableField} (hfields : Akin erasure fields fields') :
    Akin erasure (Table.mk fields placement) (.mk fields' placement') :=
  congrArg₂ Table.mk hfields.tableFields hplacement

theorem akin_keyed (hindex : Akin erasure index index') (hvalue : Akin erasure value value') :
    Akin erasure (TableField.keyed index value placement) (.keyed index' value' placement') :=
  (congr (congrArg₂ TableField.keyed hindex hvalue) hplacement :)

theorem akin_named (hname : Akin erasure name name') (hvalue : Akin erasure value value') :
    Akin erasure (TableField.named name value placement) (.named name' value' placement') :=
  (congr (congrArg₂ TableField.named hname hvalue) hplacement :)

theorem akin_positional (hvalue : Akin erasure value value') :
    Akin erasure (TableField.positional value placement) (.positional value' placement') :=
  congrArg₂ TableField.positional hvalue hplacement

theorem akin_makeField (hname : Akin erasure name name') (hvalue : Akin erasure value value') :
    Akin erasure (MakeField.mk name value placement) (.mk name' value' placement') :=
  (congr (congrArg₂ MakeField.mk hname hvalue) hplacement :)

theorem akin_function {name name' : Option Expression} {isLocal : Bool}
    {parameters parameters' : List Parameter} (hname : Akin erasure name name')
    (hparameters : Akin erasure parameters parameters') (hbody : Akin erasure body body') :
    Akin erasure (Function.mk name isLocal parameters body placement)
      (.mk name' isLocal parameters' body' placement') := by
  have hhead := congrArg₂ (Function.mk · isLocal ·) hname.expression? hparameters
  exact (congr (congr hhead hbody) hplacement :)

omit hplacement in
theorem akin_block (h : Akin erasure statements statements') (hscope : Akin erasure scope scope') :
    Akin erasure (Block.mk statements scope) (.mk statements' scope') :=
  congrArg₂ Block.mk h.blockStatements hscope

/-! ### Clauses and statements -/

theorem akin_ifClause (hvalue : Akin erasure value value') (hbody : Akin erasure body body') :
    Akin erasure (Clause.ifClause value body placement) (.ifClause value' body' placement') :=
  (congr (congrArg₂ Clause.ifClause hvalue hbody) hplacement :)

theorem akin_elseifClause (hvalue : Akin erasure value value') (hbody : Akin erasure body body') :
    Akin erasure (Clause.elseifClause value body placement) (.elseifClause value' body' placement') :=
  (congr (congrArg₂ Clause.elseifClause hvalue hbody) hplacement :)

theorem akin_elseClause (hbody : Akin erasure body body') :
    Akin erasure (Clause.elseClause body placement) (.elseClause body' placement') :=
  congrArg₂ Clause.elseClause hbody hplacement

omit hplacement in
theorem akin_functionStatement {function function' : Function}
    (hfunction : Akin erasure function function') :
    Akin erasure (Statement.functionStatement function) (.functionStatement function') :=
  congrArg Statement.functionStatement hfunction

theorem akin_label (hname : Akin erasure name name') :
    Akin erasure (Statement.labelStatement name placement) (.labelStatement name' placement') :=
  congrArg₂ Statement.labelStatement hname hplacement

theorem akin_goto (hname : Akin erasure name name') :
    Akin erasure (Statement.gotoStatement name placement) (.gotoStatement name' placement') :=
  congrArg₂ Statement.gotoStatement hname hplacement

theorem akin_break :
    Akin erasure (Statement.breakStatement placement) (.breakStatement placement') :=
  congrArg Statement.breakStatement hplacement

theorem akin_return (harguments : Akin erasure arguments arguments') :
    Akin erasure (Statement.returnStatement arguments placement)
      (.returnStatement arguments' placement') :=
  congrArg₂ Statement.returnStatement harguments.expressions hplacement

theorem akin_if {clauses clauses' : List Clause} (hclauses : Akin erasure clauses clauses') :
    Akin erasure (Statement.ifStatement clauses placement) (.ifStatement clauses' placement') :=
  congrArg₂ Statement.ifStatement hclauses.clauses hplacement

theorem akin_while (hvalue : Akin erasure value value') (hbody : Akin erasure body body') :
    Akin erasure (Statement.whileStatement value body placement)
      (.whileStatement value' body' placement') :=
  (congr (congrArg₂ Statement.whileStatement hvalue hbody) hplacement :)

theorem akin_do (hbody : Akin erasure body body') :
    Akin erasure (Statement.doStatement body placement) (.doStatement body' placement') :=
  congrArg₂ Statement.doStatement hbody hplacement

theorem akin_repeat (hbody : Akin erasure body body') (hvalue : Akin erasure value value') :
    Akin erasure (Statement.repeatStatement body value placement)
      (.repeatStatement body' value' placement') :=
  (congr (congrArg₂ Statement.repeatStatement hbody hvalue) hplacement :)

theorem akin_local {names names' : List Declarator} (hnames : Akin erasure names names')
    (harguments : Akin erasure arguments arguments') :
    Akin erasure (Statement.localStatement names arguments placement)
      (.localStatement names' arguments' placement') :=
  (congr (congrArg₂ Statement.localStatement hnames harguments.expressions) hplacement :)

theorem akin_assignment (htargets : Akin erasure targets targets')
    (harguments : Akin erasure arguments arguments') :
    Akin erasure (Statement.assignment targets arguments placement)
      (.assignment targets' arguments' placement') :=
  (congr (congrArg₂ Statement.assignment htargets.expressions harguments.expressions) hplacement :)

theorem akin_callStatement (hvalue : Akin erasure value value') :
    Akin erasure (Statement.callStatement value placement) (.callStatement value' placement') :=
  congrArg₂ Statement.callStatement hvalue hplacement

theorem akin_numericFor {step step' : Option Expression} (hname : Akin erasure name name')
    (hleft : Akin erasure left left') (hright : Akin erasure right right')
    (hstep : Akin erasure step step') (hbody : Akin erasure body body') :
    Akin erasure (Statement.numericFor name left right step body placement)
      (.numericFor name' left' right' step' body' placement') := by
  have hheader := congr (congr (congrArg₂ Statement.numericFor hname hleft) hright) hstep.expression?
  exact (congr (congr hheader hbody) hplacement :)

theorem akin_genericFor {names names' : List Identifier} (hnames : Akin erasure names names')
    (harguments : Akin erasure arguments arguments') (hbody : Akin erasure body body') :
    Akin erasure (Statement.genericFor names arguments body placement)
      (.genericFor names' arguments' body' placement') := by
  have hheader := congrArg₂ Statement.genericFor hnames harguments.expressions
  exact (congr (congr hheader hbody) hplacement :)

theorem akin_structure {fields fields' : List StructureEntry} (hname : Akin erasure name name')
    (hfields : Akin erasure fields fields') :
    Akin erasure (Statement.structureDeclaration name fields placement)
      (.structureDeclaration name' fields' placement') :=
  (congr (congrArg₂ Statement.structureDeclaration hname hfields) hplacement :)

end

/-! ## Erasing nothing -/

/-- To erase nothing leaves a declarator as it is. -/
theorem Declarator.erase_nothing (declarator : Declarator) : declarator.erase .nothing = declarator := by
  cases declarator <;> rfl

/-- To erase nothing leaves a parameter as it is. -/
theorem Parameter.erase_nothing (parameter : Parameter) : parameter.erase .nothing = parameter := by
  cases parameter <;> rfl

/-- What leaves everything as it is leaves every list as it is. -/
theorem map_erase_nothing {α : Type} {erase : α → α} (h : ∀ a, erase a = a) (list : List α) :
    list.map erase = list := by
  rw [show erase = id from funext h, List.map_id]

mutual

/-- To erase nothing leaves an expression as it is. -/
theorem Expression.erase_nothing : (expression : Expression) → expression.erase .nothing = expression
  | .identifier _ => rfl
  | .literal _ => rfl
  | .function inner => congrArg Expression.function inner.erase_nothing
  | .table inner => congrArg Expression.table inner.erase_nothing
  | .binary operator left right placement =>
    congrArg₂ (Expression.binary operator · · placement) left.erase_nothing right.erase_nothing
  | .logical operator left right placement =>
    congrArg₂ (Expression.logical operator · · placement) left.erase_nothing right.erase_nothing
  | .unary operator argument placement =>
    congrArg (Expression.unary operator · placement) argument.erase_nothing
  | .member base indexer name placement =>
    congrArg (Expression.member · indexer name placement) base.erase_nothing
  | .index base index placement =>
    congrArg₂ (Expression.index · · placement) base.erase_nothing index.erase_nothing
  | .call base arguments placement =>
    congrArg₂ (Expression.call · · placement) base.erase_nothing (eraseExpressions_nothing arguments)
  | .tableCall base argument placement =>
    congrArg₂ (Expression.tableCall · · placement) base.erase_nothing argument.erase_nothing
  | .stringCall base argument placement =>
    congrArg (Expression.stringCall · argument placement) base.erase_nothing
  | .make type fields placement =>
    congrArg (Expression.make type · placement) (eraseMakeFields_nothing fields)

theorem eraseExpressions_nothing : (expressions : List Expression) →
    eraseExpressions .nothing expressions = expressions
  | [] => rfl
  | expression :: rest => congrArg₂ List.cons expression.erase_nothing (eraseExpressions_nothing rest)

theorem eraseExpression?_nothing : (expression : Option Expression) →
    eraseExpression? .nothing expression = expression
  | none => rfl
  | some expression => congrArg some expression.erase_nothing

/-- To erase nothing leaves a table as it is. -/
theorem Table.erase_nothing : (table : Table) → table.erase .nothing = table
  | .mk fields placement => congrArg (Table.mk · placement) (eraseTableFields_nothing fields)

theorem TableField.erase_nothing : (field : TableField) → field.erase .nothing = field
  | .keyed key value placement =>
    congrArg₂ (TableField.keyed · · placement) key.erase_nothing value.erase_nothing
  | .named key value placement => congrArg (TableField.named key · placement) value.erase_nothing
  | .positional value placement => congrArg (TableField.positional · placement) value.erase_nothing

theorem eraseTableFields_nothing : (fields : List TableField) →
    eraseTableFields .nothing fields = fields
  | [] => rfl
  | field :: rest => congrArg₂ List.cons field.erase_nothing (eraseTableFields_nothing rest)

theorem MakeField.erase_nothing : (field : MakeField) → field.erase .nothing = field
  | .mk key value placement => congrArg (MakeField.mk key · placement) value.erase_nothing

theorem eraseMakeFields_nothing : (fields : List MakeField) → eraseMakeFields .nothing fields = fields
  | [] => rfl
  | field :: rest => congrArg₂ List.cons field.erase_nothing (eraseMakeFields_nothing rest)

/-- To erase nothing leaves a function as it is. -/
theorem Function.erase_nothing : (function : Function) → function.erase .nothing = function
  | .mk name isLocal parameters body placement => by
    have hhead := congrArg₂ (Function.mk · isLocal · body placement) (eraseExpression?_nothing name)
      (map_erase_nothing Parameter.erase_nothing parameters)
    exact (congrArg (Function.mk _ isLocal _ · placement) body.erase_nothing).trans hhead

/-- To erase nothing leaves a block as it is. -/
theorem Block.erase_nothing : (block : Block) → block.erase .nothing = block
  | .mk statements scope => congrArg (Block.mk · scope) (eraseStatements_nothing statements)

theorem Clause.erase_nothing : (clause : Clause) → clause.erase .nothing = clause
  | .ifClause condition body placement =>
    congrArg₂ (Clause.ifClause · · placement) condition.erase_nothing body.erase_nothing
  | .elseifClause condition body placement =>
    congrArg₂ (Clause.elseifClause · · placement) condition.erase_nothing body.erase_nothing
  | .elseClause body placement => congrArg (Clause.elseClause · placement) body.erase_nothing

theorem eraseClauses_nothing : (clauses : List Clause) → eraseClauses .nothing clauses = clauses
  | [] => rfl
  | clause :: rest => congrArg₂ List.cons clause.erase_nothing (eraseClauses_nothing rest)

/-- To erase nothing leaves a statement as it is. -/
theorem Statement.erase_nothing : (statement : Statement) → statement.erase .nothing = statement
  | .labelStatement _ _ => rfl
  | .breakStatement _ => rfl
  | .gotoStatement _ _ => rfl
  | .returnStatement arguments placement =>
    congrArg (Statement.returnStatement · placement) (eraseExpressions_nothing arguments)
  | .ifStatement clauses placement =>
    congrArg (Statement.ifStatement · placement) (eraseClauses_nothing clauses)
  | .whileStatement condition body placement =>
    congrArg₂ (Statement.whileStatement · · placement) condition.erase_nothing body.erase_nothing
  | .doStatement body placement => congrArg (Statement.doStatement · placement) body.erase_nothing
  | .repeatStatement body condition placement =>
    congrArg₂ (Statement.repeatStatement · · placement) body.erase_nothing condition.erase_nothing
  | .localStatement names values placement =>
    congrArg₂ (Statement.localStatement · · placement) (map_erase_nothing Declarator.erase_nothing names)
      (eraseExpressions_nothing values)
  | .assignment targets values placement =>
    congrArg₂ (Statement.assignment · · placement) (eraseExpressions_nothing targets)
      (eraseExpressions_nothing values)
  | .callStatement call placement => congrArg (Statement.callStatement · placement) call.erase_nothing
  | .functionStatement function => congrArg Statement.functionStatement function.erase_nothing
  | .numericFor counter start stop step body placement => by
    have hrange := congrArg₂ (Statement.numericFor counter · · step body placement) start.erase_nothing
      stop.erase_nothing
    exact (congrArg₂ (Statement.numericFor counter _ _ · · placement) (eraseExpression?_nothing step)
      body.erase_nothing).trans hrange
  | .genericFor names iterators body placement => by
    have hnames := congrArg (Statement.genericFor · iterators body placement) (List.map_id names)
    exact (congrArg₂ (Statement.genericFor _ · · placement) (eraseExpressions_nothing iterators)
      body.erase_nothing).trans hnames
  | .structureDeclaration name fields placement =>
    congrArg (Statement.structureDeclaration name · placement) (List.map_id fields)

theorem eraseStatements_nothing : (statements : List Statement) →
    eraseStatements .nothing statements = statements
  | [] => rfl
  | statement :: rest => congrArg₂ List.cons statement.erase_nothing (eraseStatements_nothing rest)

end

end LuaSyntax
