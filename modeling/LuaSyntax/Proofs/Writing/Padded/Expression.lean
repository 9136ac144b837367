import LuaSyntax.Proofs.Tree.Within
import LuaSyntax.Proofs.Writing.Padded.Row

/-!
# Padded expressions

Every part of an expression is written with semicolons put in if the parts of it are. The only statements in an
expression are in the bodies of its functions, so all but blocks are rows of tokens and of parts. Only dialects that
have empty statements are asked for; they may break lines before an argument list, and have neither types nor words
that are reserved at times.
-/

namespace LuaSyntax

open Grammar (endsBlock)

/-! ## Dialects -/

/-- What else is true of a dialect that has empty statements. -/
theorem Dialect.has_of_emptyStatement {dialect : Dialect} (h : dialect.has .emptyStatement = true) :
    dialect.has .relaxedBreak = true ∧ dialect.has .flexibleLineEnd = true ∧
      dialect.has .typedIdentifiers = false ∧ dialect.has .contextualGoto = false ∧
      dialect.has .hstructure = false := by
  revert h
  cases dialect <;> decide

namespace Writing

variable {dialect : Dialect} {inner inner' : Writing} {p q : Point}

/-- What is nested, written with semicolons put in. A statement begins and ends where it says, and what begins with
the word for it is a `return`. -/
structure Padding (inner inner' : Writing) : Prop where
  empty {p q : Point} : inner.statement none p q → p.Faces Symbol.semicolon ∧ q = p.step
  semicolon {p : Point} : p.Faces Symbol.semicolon → inner'.statement none p p.step
  begins {statement : Statement} {p q : Point} : inner.statement (some statement) p q → ¬ p.Faces Symbol.semicolon
  range {statement : Statement} {p q : Point} : inner.statement (some statement) p q →
    ∀ span ∈ statement.placement.range,
      span.start = p.token.start.offset ∧ span.stop = max q.previous.stop.offset span.start
  statement {statement : Statement} {p q : Point} : inner.statement (some statement) p q →
    ¬ p.Faces ReservedWord.returnWord → statement.isStructure = false →
    Padded true .loose (Within statement.items) p q (inner'.statement (some statement))
  returned {statement : Statement} {p q : Point} : inner.statement (some statement) p q →
    p.Faces ReservedWord.returnWord → (∃ arguments placement, statement = .returnStatement arguments placement) ∧
      Padded true .tight (Within statement.items) p q (inner'.statement (some statement))
  expression {level : Nat} {expression : Expression} {p q : Point} : inner.expression level expression p q →
    Padded true .loose (Within expression.items) p q (inner'.expression level expression)
  absent {edge : Edge} {p p' : Point} : inner.absent p → edge.Allows p p' → inner'.absent p'

/-! ## Rows -/

section

variable {α : Type} {item item' : α → Point → Point → Prop} {inside : α → Statement → Prop} {headed : Bool}
  {list : List α}

/-- Things behind commas are padded if each is. -/
theorem Commas.padded (hitem : ∀ {a p q}, item a p q → Padded true .loose (inside a) p q (item' a))
    (h : Commas item list p q) :
    Padded false .loose (fun statement => ∃ a ∈ list, inside a statement) p q (Commas item' list) := by
  induction h with
  | nil hstop =>
    have hnone : Padded false .loose Nothing _ _ (Commas item' []) :=
      .here nofun fun p' hedge => .nil (hedge.not_faces hstop (by decide))
    exact hnone.mono (by simp) fun _ _ _ _ => id
  | cons hcomma ha _ ih =>
    refine ((Padded.faces hcomma rfl).append ((hitem ha).append ih)).unheaded.mono (by simp) ?_
    rintro p' q' - - ⟨_, ⟨hcomma', rfl⟩, _, ha', hrest'⟩
    exact .cons hcomma' ha' hrest'

/-- A row of things with commas is padded if each is. -/
theorem Row.padded (hitem : ∀ {a p q}, item a p q → Padded true .loose (inside a) p q (item' a))
    (h : Row item list p q) :
    Padded true .loose (fun statement => ∃ a ∈ list, inside a statement) p q (Row item' list) := by
  obtain ⟨ha, hcommas⟩ := h
  refine ((hitem ha).append (Commas.padded (fun ha => hitem ha) hcommas)).mono (by simp) ?_
  rintro p' q' - - ⟨_, ha', hcommas'⟩
  exact .mk ha' hcommas'

/-- Fields with separators are padded if each is. -/
theorem Fields.padded {stop stop' : Point → Prop}
    (hstop : ∀ {p p' : Point}, p'.token.value = p.token.value → stop p → stop' p')
    (hitem : ∀ {a p q}, item a p q → Padded true .loose (inside a) p q (item' a))
    (h : Fields stop item list p q) :
    Padded false .tight (fun statement => ∃ a ∈ list, inside a statement) p q (Fields stop' item' list) := by
  induction h with
  | nil hhere =>
    have hnone : Padded false .tight Nothing _ _ (Fields stop' item' []) :=
      .here nofun fun p' hedge => .nil (hstop (hedge.value_eq (by decide)) hhere)
    exact hnone.mono (by simp) fun _ _ _ _ => id
  | last ha hseparates =>
    refine (hitem ha).tighten.unheaded.mono (by simp) fun p' q' _ hedge ha' => .last ha' ?_
    rwa [Separates, Point.Faces, Point.Faces, hedge.value_eq (by decide)]
  | @more _ _ _ q _ ha hseparates _ ih =>
    have hends : endsBlock q.token = false := by
      rcases hseparates with hfaces | hfaces <;> rw [endsBlock, show q.token.value = _ from hfaces] <;> rfl
    refine ((hitem ha).append ((Padded.token hends).append ih)).unheaded.mono (by simp) ?_
    rintro p' q' - - ⟨m', ha', _, ⟨hspelled, rfl⟩, hrest'⟩
    refine .more ha' ?_ hrest'
    rwa [Separates, Point.Faces, Point.Faces, (Prod.mk.inj hspelled).1]

end

/-! ## Names -/

/-- A name is padded. -/
theorem Name.padded {name : Identifier} (h : Name name p q) : Padded true .loose Nothing p q (Name name) := by
  obtain ⟨hname⟩ := h
  refine (Padded.names hname).mono (fun _ => .rfl) ?_
  rintro p' q' - - ⟨hname', rfl⟩
  exact .mk hname'

/-- A path is padded. -/
theorem NamePath.padded {path : Expression} (h : NamePath path p q) :
    Padded true .loose (Within path.items) p q (NamePath path) := by
  induction h with
  | name hname =>
    refine (Padded.names hname).mono (by simp) ?_
    rintro p' q' - - ⟨hname', rfl⟩
    exact .name hname'
  | member _ hdot hname ih =>
    refine (ih.append ((Padded.faces hdot rfl).append (Padded.names hname))).mono (by simp) ?_
    rintro p' q' - - ⟨_, hpath', _, ⟨hdot', rfl⟩, hname', rfl⟩
    exact .member hpath' hdot' hname'

/-- The name of a function is padded. -/
theorem FunctionName.padded {name : Expression} (h : FunctionName name p q) :
    Padded true .loose (Within name.items) p q (FunctionName name) := by
  cases h with
  | function hpath => exact hpath.padded.mono (fun _ => .rfl) fun _ _ _ _ => .function
  | method hpath hcolon hname =>
    refine (hpath.padded.append ((Padded.faces hcolon rfl).append (Padded.names hname))).mono (by simp) ?_
    rintro p' q' - - ⟨_, hpath', _, ⟨hcolon', rfl⟩, hname', rfl⟩
    exact .method hpath' hcolon' hname'

section

variable (hd : dialect.has .emptyStatement = true)

include hd

/-- A declared name is padded. -/
theorem Declared.padded {name : Declarator} (h : Declared dialect name p q) :
    Padded true .loose Nothing p q (Declared dialect name) := by
  obtain ⟨-, -, htyped, -, -⟩ := Dialect.has_of_emptyStatement hd
  cases h with
  | plain hname =>
    refine (Padded.names hname).mono (fun _ => .rfl) ?_
    rintro p' q' - - ⟨hname', rfl⟩
    exact .plain hname' fun h => Bool.noConfusion (htyped.symm.trans h.1)
  | typed h => cases htyped.symm.trans h

/-- A row of parameters is padded. -/
theorem ParameterRow.padded {parameters : List Parameter} (h : ParameterRow dialect parameters p q) :
    Padded true .loose Nothing p q (ParameterRow dialect parameters) := by
  induction h with
  | last hname hright =>
    refine ((hname.padded hd).append (Padded.faces hright rfl)).mono (by simp) ?_
    rintro p' q' - - ⟨_, hname', hright', rfl⟩
    exact .last hname' hright'
  | dots hdenotes hvararg hright =>
    refine ((Padded.denotes hdenotes).append (Padded.faces hright rfl)).mono (by simp) ?_
    rintro p' q' - - ⟨_, ⟨hdenotes', rfl⟩, hright', rfl⟩
    exact .dots hdenotes' hvararg hright'
  | more hname hcomma _ ih =>
    refine ((hname.padded hd).append ((Padded.faces hcomma rfl).append ih)).mono (by simp) ?_
    rintro p' q' - - ⟨_, hname', _, ⟨hcomma', rfl⟩, hrest'⟩
    exact .more hname' hcomma' hrest'

/-- Parameters in parentheses are padded. -/
theorem Parameters.padded {parameters : List Parameter} (h : Parameters dialect parameters p q) :
    Padded true .loose Nothing p q (Parameters dialect parameters) := by
  cases h with
  | none hleft hright =>
    refine ((Padded.faces hleft rfl).append (Padded.faces hright rfl)).mono (by simp) ?_
    rintro p' q' - - ⟨_, ⟨hleft', rfl⟩, hright', rfl⟩
    exact .none hleft' hright'
  | some hleft hrow =>
    refine ((Padded.faces hleft rfl).append (hrow.padded hd)).mono (by simp) ?_
    rintro p' q' - - ⟨_, ⟨hleft', rfl⟩, hrow'⟩
    exact .some hleft' hrow'

end

variable (hd : dialect.has .emptyStatement = true) (h : Padding inner inner')

include h

/-! ## Blocks and functions -/

/-- Statements that may be read with the separator behind the statement before them or without it. -/
def Continued (dialect : Dialect) (inner : Writing) (statements : List Statement) (p q : Point) : Prop :=
  Statements dialect inner statements p q ∧ Statements dialect inner statements (p.skip Symbol.semicolon) q

omit h in
/-- Statements before which no semicolon stands go on as they are. -/
theorem continued_of_not_faces {statements : List Statement} (hstatements : Statements dialect inner statements p q)
    (hsemicolon : ¬ p.Faces Symbol.semicolon) : Continued dialect inner statements p q :=
  ⟨hstatements, (Point.skip_of_not_faces hsemicolon).symm ▸ hstatements⟩

/-- Before statements a semicolon may stand, be it read as a separator or as an empty statement. -/
theorem continued_of_step {statements : List Statement} (hsemicolon : p.Faces Symbol.semicolon)
    (hstatements : Continued dialect inner' statements p.step q) : Continued dialect inner' statements p q := by
  refine ⟨?_, (Point.skip_of_faces hsemicolon).symm ▸ hstatements.1⟩
  have hends : endsBlock p.token = false := by
    rw [endsBlock, show p.token.value = _ from hsemicolon]
    rfl
  exact .more hends (hsemicolon.not_faces (by decide))
    (fun hbreak => hsemicolon.not_faces (by decide) hbreak.1) (h.semicolon hsemicolon) hstatements.2

include hd

/-- Statements are padded, with a gap before each and where they end. -/
theorem Statements.padded {statements : List Statement} (hstatements : Statements dialect inner statements p q) :
    Padded false .closed (Within (statements.map Statement.item)) p q (Continued dialect inner' statements) := by
  obtain ⟨hrelaxed, -⟩ := Dialect.has_of_emptyStatement hd
  have hstep (statements : List Statement) (p' q' : Point) :
      p'.Faces Symbol.semicolon → Continued dialect inner' statements p'.step q' →
        Continued dialect inner' statements p' q' := continued_of_step h
  induction hstatements with
  | @nil p hend =>
    refine (Padded.nothing (hstep _) fun p' hvalue => ?_).mono (by simp) fun _ _ _ _ => id
    have hend' : endsBlock p'.token = true := by
      rw [endsBlock, hvalue]
      exact hend
    refine continued_of_not_faces (.nil hend') fun hsemicolon => ?_
    rw [endsBlock, show p'.token.value = _ from hsemicolon] at hend'
    cases hend'
  | @last statement p q hreturn hstatement =>
    cases statement with
    | none => exact absurd hreturn ((h.empty hstatement).1.not_faces (by decide))
    | some statement =>
      obtain ⟨⟨arguments, placement, rfl⟩, hpadded⟩ := h.returned hstatement hreturn
      have hrange : ∀ span ∈ placement.range, _ := h.range hstatement
      refine (Padded.returned (hstep _) (hpadded.ahead.mono (fun _ => .rfl) ?_) (fun span hspan =>
        (hrange span hspan).1) fun span hspan => (hrange span hspan).2 : Padded false .closed (fun other =>
          other = .returnStatement arguments placement ∨ _) p q _).mono (by simp) fun _ _ _ _ => id
      rintro p' q' - - ⟨hstatement', hspelled, -⟩
      have hreturn' : p'.Faces ReservedWord.returnWord := (congrArg Prod.fst hspelled).trans hreturn
      exact continued_of_not_faces (.last hreturn' hstatement') (hreturn'.not_faces (by decide))
  | lastBreak _ hlast => cases hrelaxed.symm.trans hlast
  | @more statement rest p q r hbegin hreturn hbreak hstatement _ ih =>
    cases statement with
    | none =>
      obtain ⟨hsemicolon, rfl⟩ := h.empty hstatement
      by_cases hnext : p.step.Faces Symbol.semicolon
      · rw [Point.skip_of_faces hnext] at ih
        refine ((Padded.faces hsemicolon rfl).append ((Padded.faces hnext rfl).append ih)).unheaded.mono
          (by simp) ?_
        rintro p' q' - - ⟨_, ⟨hsemicolon', rfl⟩, _, ⟨hnext', rfl⟩, hrest'⟩
        exact hstep _ _ _ hsemicolon' (hstep _ _ _ hnext' hrest')
      · rw [Point.skip_of_not_faces hnext] at ih
        refine ((Padded.faces hsemicolon rfl).append ih).unheaded.mono (by simp) ?_
        rintro p' q' - - ⟨_, ⟨hsemicolon', rfl⟩, hrest'⟩
        exact hstep _ _ _ hsemicolon' hrest'
    | some statement =>
      have hrest : Padded false .closed (Within (rest.map Statement.item)) q r fun m' r' =>
          Statements dialect inner' rest (m'.skip Symbol.semicolon) r' := by
        by_cases hnext : q.Faces Symbol.semicolon
        · rw [Point.skip_of_faces hnext] at ih
          refine ((Padded.faces hnext rfl).append ih).unheaded.mono (by simp) ?_
          rintro m' r' - - ⟨_, ⟨hnext', rfl⟩, hrest'⟩
          exact (Point.skip_of_faces hnext').symm ▸ hrest'.1
        · rw [Point.skip_of_not_faces hnext] at ih
          exact ih.mono (fun _ => .rfl) fun _ _ _ _ hrest' => hrest'.2
      have hpadded (hplain : statement.isStructure = false) :
          Padded true .closed (fun other => Within statement.items other ∨ Within (rest.map Statement.item) other)
            p r (Continued dialect inner' (statement :: rest)) := by
        refine (((h.statement hstatement hreturn hplain).ahead).append hrest).mono (fun _ => .rfl) ?_
        rintro p' r' - - ⟨m', ⟨hstatement', hspelled, -⟩, hrest'⟩
        have hvalue : p'.token.value = p.token.value := congrArg Prod.fst hspelled
        have hbegin' : endsBlock p'.token = false := by
          rw [endsBlock, hvalue]
          exact hbegin
        have hreturn' : ¬ p'.Faces ReservedWord.returnWord := by rwa [Point.Faces, hvalue]
        have hbreak' : ¬ (p'.Faces ReservedWord.breakWord ∧ dialect.has .relaxedBreak = false) :=
          fun hlast => Bool.noConfusion (hrelaxed.symm.trans hlast.2)
        have hsemicolon' : ¬ p'.Faces Symbol.semicolon := by
          rw [Point.Faces, hvalue]
          exact h.begins hstatement
        exact continued_of_not_faces (.more hbegin' hreturn' hbreak' hstatement' hrest') hsemicolon'
      refine (Padded.opened (hstep _) hpadded fun span hspan => (h.range hstatement span hspan).1).mono ?_
        fun _ _ _ _ => id
      simp [or_assoc]

/-- A block of which no more is asked than that it is written. -/
theorem Statements.padded_block {statements : List Statement} (hstatements : Statements dialect inner statements p q) :
    Padded false .closed (Within (statements.map Statement.item)) p q (Statements dialect inner' statements) :=
  (hstatements.padded hd h).mono (fun _ => .rfl) fun _ _ _ _ => And.left

/-- The body of a function is padded. -/
theorem FunctionBody.padded {function : Function} (hbody : FunctionBody dialect inner function p q) :
    Padded true .loose (Within function.body.items) p q (FunctionBody dialect inner' function) := by
  obtain ⟨hparameters, hstatements, hend⟩ := hbody
  refine ((hparameters.padded hd).append ((hstatements.padded_block hd h).pass hend (.inl rfl))).mono
    (by simp [Function.body]) ?_
  rintro p' q' - - ⟨_, hparameters', _, hstatements', hend', rfl⟩
  exact .mk hparameters' hstatements' hend'

/-! ## Lists and constructors -/

omit hd in
/-- A row of expressions is padded. -/
theorem padded_row {expressions : List Expression} {level : Nat} (hrow : Row (inner.expression level) expressions p q) :
    Padded true .loose (Within (expressions.map Expression.item)) p q (Row (inner'.expression level) expressions) :=
  (hrow.padded fun hexpression => h.expression hexpression).mono (by simp) fun _ _ _ _ => id

omit hd in
/-- Any number of expressions is padded. -/
theorem OptionalList.padded {expressions : List Expression} (hlist : OptionalList inner expressions p q) :
    Padded false .loose (Within (expressions.map Expression.item)) p q (OptionalList inner' expressions) := by
  cases hlist with
  | none habsent =>
    have hnone : Padded false .loose Nothing p p (OptionalList inner' []) :=
      .here nofun fun p' hedge => .none (h.absent habsent hedge)
    exact hnone.mono (by simp) fun _ _ _ _ => id
  | some hrow => exact (padded_row h hrow).unheaded.mono (fun _ => .rfl) fun _ _ _ _ => .some

omit hd in
/-- A field of a table is padded. -/
theorem Field.padded {field : TableField} (hfield : Field inner field p q) :
    Padded true .loose (Within field.items) p q (Field inner' field) := by
  cases hfield with
  | keyed hleft hkey hright hassign hvalue =>
    refine ((Padded.faces hleft rfl).append ((h.expression hkey).append ((Padded.faces hright rfl).append
      ((Padded.faces hassign rfl).append (h.expression hvalue))))).mono (by simp [TableField.items]) ?_
    rintro p' q' - - ⟨_, ⟨hleft', rfl⟩, _, hkey', _, ⟨hright', rfl⟩, _, ⟨hassign', rfl⟩, hvalue'⟩
    exact .keyed hleft' hkey' hright' hassign' hvalue'
  | named hname hassign hvalue =>
    refine ((Padded.names hname).append ((Padded.faces hassign rfl).append (h.expression hvalue))).mono
      (by simp [TableField.items]) ?_
    rintro p' q' - - ⟨_, ⟨hname', rfl⟩, _, ⟨hassign', rfl⟩, hvalue'⟩
    exact .named hname' hassign' hvalue'
  | positional hleft hnamed hvalue =>
    refine (h.expression hvalue).ahead.mono (by simp [TableField.items]) ?_
    rintro p' q' - - ⟨hvalue', hspelled, hahead⟩
    have htoken : p'.token.value = p.token.value := congrArg Prod.fst hspelled
    refine .positional (by rwa [Point.Faces, htoken]) ?_ hvalue'
    rintro ⟨hkind, hassign⟩
    rw [Token.kind, htoken] at hkind
    exact hahead.not_faces (fun hassign => hnamed ⟨hkind, hassign⟩) (by decide) hassign

omit hd in
/-- A table is padded. -/
theorem TableBody.padded {table : Table} (htable : TableBody inner table p q) :
    Padded false .loose (Within table.items) p q (TableBody inner' table) := by
  obtain ⟨hfields, hright⟩ := htable
  have hstop {p p' : Point} (hvalue : p'.token.value = p.token.value)
      (hhere : inner.absent p ∧ ¬ p.Faces Symbol.leftBracket) :
      inner'.absent p' ∧ ¬ p'.Faces Symbol.leftBracket :=
    ⟨h.absent hhere.1 (.inl hvalue : Edge.tight.Allows p p'), by rw [Point.Faces, hvalue]; exact hhere.2⟩
  refine ((hfields.padded hstop fun hfield => Field.padded h hfield).pass hright (.inr rfl)).mono
    (by simp [Table.items, encloses_node, Node.items]) ?_
  rintro p' q' - - ⟨_, hfields', hright', rfl⟩
  exact .mk hfields' hright'

omit hd in
/-- A field of a structure is padded. -/
theorem StructureField.padded {field : MakeField} (hfield : StructureField inner field p q) :
    Padded true .loose (Within field.items) p q (StructureField inner' field) := by
  obtain ⟨hname, hassign, hvalue⟩ := hfield
  refine ((Padded.names hname).append ((Padded.faces hassign rfl).append (h.expression hvalue))).mono
    (by simp [MakeField.items]) ?_
  rintro p' q' - - ⟨_, ⟨hname', rfl⟩, _, ⟨hassign', rfl⟩, hvalue'⟩
  exact .mk hname' hassign' hvalue'

/-! ## Suffixes -/

variable {a b : Expression × Point}

omit hd h in
/-- Something that is made of what stands before it, in a row in which the semicolons of that are no concern. -/
def Extends (headed : Bool) (step : Expression × Point → Expression × Point → Prop) (a b : Expression × Point) : Prop :=
  ∃ inside, (∀ statement, Within b.1.items statement ↔ Within a.1.items statement ∨ inside statement) ∧
    Padded headed .loose inside a.2 b.2 fun p' q' => step (a.1, p') (b.1, q')

/-- The arguments of a call are padded. -/
theorem Arguments.padded (harguments : Arguments dialect inner a b) :
    Extends true (Arguments dialect inner') a b := by
  obtain ⟨-, hflexible, -⟩ := Dialect.has_of_emptyStatement hd
  cases harguments with
  | list hleft _ hlist hright =>
    refine ⟨_, ?_, ((Padded.faces hleft rfl).append ((hlist.padded h).pass hright (.inr rfl))).mono
      (fun _ => .rfl) ?_⟩
    · simp [Expression.items]
    · rintro p' q' - - ⟨_, ⟨hleft', rfl⟩, _, hlist', hright', rfl⟩
      exact .list hleft' (fun hline => Bool.noConfusion (hflexible.symm.trans hline)) hlist' hright'
  | table hleft htable =>
    refine ⟨_, ?_, ((Padded.faces hleft rfl).append (htable.padded h)).mono (fun _ => .rfl) ?_⟩
    · simp [Expression.items, encloses_node, Node.items]
    · rintro p' q' - - ⟨_, ⟨hleft', rfl⟩, htable'⟩
      exact .table hleft' htable'
  | string hdenotes hvalue =>
    refine ⟨_, ?_, (Padded.denotes hdenotes).mono (fun _ => .rfl) ?_⟩
    · simp [Expression.items]
    · rintro p' q' - - ⟨hdenotes', rfl⟩
      exact .string hdenotes' hvalue

/-- A suffix is padded. -/
theorem Suffix.padded (hsuffix : Suffix dialect inner a b) : Extends true (Suffix dialect inner') a b := by
  cases hsuffix with
  | index hleft hindex hright =>
    refine ⟨_, ?_, ((Padded.faces hleft rfl).append ((h.expression hindex).pass hright (.inr rfl))).mono
      (fun _ => .rfl) ?_⟩
    · simp [Expression.items]
    · rintro p' q' - - ⟨_, ⟨hleft', rfl⟩, _, hindex', hright', rfl⟩
      exact .index hleft' hindex' hright'
  | member hdot hname =>
    refine ⟨_, ?_, ((Padded.faces hdot rfl).append (Padded.names hname)).mono (fun _ => .rfl) ?_⟩
    · simp [Expression.items]
    · rintro p' q' - - ⟨_, ⟨hdot', rfl⟩, hname', rfl⟩
      exact .member hdot' hname'
  | method hcolon hname harguments =>
    obtain ⟨inside, hinside, hpadded⟩ := harguments.padded hd h
    refine ⟨_, ?_, ((Padded.faces hcolon rfl).append ((Padded.names hname).append hpadded)).mono
      (fun _ => .rfl) ?_⟩
    · simp [hinside]
    · rintro p' q' - - ⟨_, ⟨hcolon', rfl⟩, _, ⟨hname', rfl⟩, harguments'⟩
      exact .method hcolon' hname' harguments'
  | arguments harguments =>
    obtain ⟨inside, hinside, hpadded⟩ := harguments.padded hd h
    exact ⟨inside, hinside, hpadded.mono (fun _ => .rfl) fun _ _ _ _ => .arguments⟩

omit hd h in
/-- Steps that are written with semicolons put in one by one are so together. -/
theorem padded_steps {step step' : Expression × Point → Expression × Point → Prop}
    (hstep : ∀ {a b}, step a b → Extends true step' a b) (hsteps : Relation.ReflTransGen step a b) :
    Extends false (Relation.ReflTransGen step') a b := by
  induction hsteps using Relation.ReflTransGen.head_induction_on with
  | refl => exact ⟨Nothing, by simp, .here nofun fun _ _ => .refl⟩
  | head hfirst _ ih =>
    obtain ⟨inside, hinside, hpadded⟩ := hstep hfirst
    obtain ⟨inside', hinside', hpadded'⟩ := ih
    refine ⟨_, fun statement => ?_, (hpadded.append hpadded').unheaded.mono (fun _ => .rfl) ?_⟩
    · rw [hinside', hinside, or_assoc]
    · rintro p' q' - - ⟨_, hfirst', hrest'⟩
      exact .head hfirst' hrest'

/-- Where suffixes begin and end, semicolons that were put in begin none. -/
theorem Suffixes.padded (hsuffixes : Suffixes dialect inner a b) (hstop : Grammar.startsSuffix b.2.token = false) :
    Extends false (fun a' b' => Suffixes dialect inner' a' b' ∧
      Grammar.startsSuffix a'.2.token = Grammar.startsSuffix a.2.token) a b := by
  rcases hsuffixes.cases_head with rfl | ⟨c, hfirst, hrest⟩
  · exact ⟨Nothing, by simp, .here nofun fun _ hedge => ⟨.refl, (hedge.startsSuffix_eq hstop).trans hstop.symm⟩⟩
  · obtain ⟨inside, hinside, hpadded⟩ := hfirst.padded hd h
    obtain ⟨inside', hinside', hpadded'⟩ := padded_steps (fun hsuffix => Suffix.padded hd h hsuffix) hrest
    refine ⟨_, fun statement => ?_, (hpadded.ahead.append hpadded').unheaded.mono (fun _ => .rfl) ?_⟩
    · rw [hinside', hinside, or_assoc]
    · rintro p' q' - - ⟨_, ⟨hfirst', hspelled, -⟩, hrest'⟩
      refine ⟨.head hfirst' hrest', ?_⟩
      rw [Grammar.startsSuffix, Grammar.startsSuffix, (Prod.mk.inj hspelled).1]

omit hd in
/-- An expression in parentheses is padded. -/
theorem Enclosed.padded {e : Expression} (henclosed : Enclosed inner e p q) :
    Padded true .loose (Within e.items) p q (Enclosed inner' e) := by
  obtain ⟨hleft, hexpression, hright⟩ := henclosed
  refine ((Padded.faces hleft rfl).append ((h.expression hexpression).pass hright (.inr rfl))).mono (by simp) ?_
  rintro p' q' - - ⟨_, ⟨hleft', rfl⟩, _, hexpression', hright', rfl⟩
  exact .mk hleft' hexpression' hright'

/-- An expression with suffixes is padded. -/
theorem Suffixed.padded {bare : Bool} {e : Expression} (hsuffixed : Suffixed dialect inner bare e p q) :
    Padded true .loose (Within e.items) p q (Suffixed dialect inner' bare e) := by
  cases hsuffixed with
  | name hname hsuffixes hstop =>
    obtain ⟨inside, hinside, hpadded⟩ := hsuffixes.padded hd h hstop
    refine ((Padded.names hname).append hpadded).mono (by simp [hinside]) ?_
    rintro p' q' - hedge ⟨_, ⟨hname', rfl⟩, hsuffixes', -⟩
    exact .name hname' hsuffixes' (hedge.startsSuffix_eq hstop)
  | enclosed henclosed hsuffixes hstop =>
    obtain ⟨inside, hinside, hpadded⟩ := hsuffixes.padded hd h hstop
    refine ((henclosed.padded h).append hpadded).mono (by simp [hinside]) ?_
    rintro p' q' - hedge ⟨m', henclosed', hsuffixes', hstarts⟩
    rw [← show Grammar.startsSuffix m'.token = _ from hstarts]
    exact .enclosed henclosed' hsuffixes' (hedge.startsSuffix_eq hstop)

/-! ## Operators -/

/-- An operand is padded. -/
theorem Operand.padded {e : Expression} (hoperand : Operand dialect inner e p q) :
    Padded true .loose (Within e.items) p q (Operand dialect inner' e) := by
  cases hoperand with
  | literal hdenotes =>
    refine (Padded.denotes hdenotes).mono (by simp [Expression.items]) ?_
    rintro p' q' - - ⟨hdenotes', rfl⟩
    exact .literal hdenotes'
  | function hfunction hbody =>
    refine ((Padded.faces hfunction rfl).append (hbody.padded hd h)).mono
      (by simp [Expression.items, Function.items, Function.body]) ?_
    rintro p' q' - - ⟨_, ⟨hfunction', rfl⟩, hbody'⟩
    exact .function hfunction' hbody'
  | table hleft htable =>
    refine ((Padded.faces hleft rfl).append (htable.padded h)).mono (by simp [Expression.items]) ?_
    rintro p' q' - - ⟨_, ⟨hleft', rfl⟩, htable'⟩
    exact .table hleft' htable'
  | make hmake htype hleft hfields hright =>
    have hpadded := (hfields.padded (fun hvalue hhere => (hvalue.trans hhere : _ = _))
      fun hfield => StructureField.padded h hfield).pass hright (.inr rfl)
    refine ((Padded.faces hmake rfl).append ((Padded.names htype).append ((Padded.faces hleft rfl).append
      hpadded))).mono (by simp [Expression.items, encloses_node, Node.items]) ?_
    rintro p' q' - - ⟨_, ⟨hmake', rfl⟩, _, ⟨htype', rfl⟩, _, ⟨hleft', rfl⟩, _, hfields', hright', rfl⟩
    exact .make hmake' htype' hleft' hfields' hright'
  | suffixed hsuffixed => exact (hsuffixed.padded hd h).mono (fun _ => .rfl) fun _ _ _ _ => .suffixed
  | unary hoperator hargument =>
    have hends : endsBlock p.token = false := by
      unfold UnaryOperator.ofToken? at hoperator
      split at hoperator <;> first | (next hvalue => rw [endsBlock, hvalue]) | cases hoperator
    refine ((Padded.token hends).append (h.expression hargument)).mono (by simp [Expression.items]) ?_
    rintro p' q' - - ⟨_, ⟨hspelled, rfl⟩, hargument'⟩
    exact .unary ((Prod.mk.inj hspelled).1.symm ▸ hoperator) hargument'

omit hd in
/-- An operator and its right operand are padded. -/
theorem Joining.padded {level : Nat} (hjoining : Joining inner level a b) :
    Extends true (Joining inner' level) a b := by
  cases hjoining with
  | @mk operator _ _ _ p _ hoperator hlevel hright =>
    have hends : endsBlock p.token = false := by
      unfold Operator.ofToken? at hoperator
      split at hoperator <;> first | (next hvalue => rw [endsBlock, hvalue]) | cases hoperator
    refine ⟨_, ?_, ((Padded.token hends).append (h.expression hright)).mono (fun _ => .rfl) ?_⟩
    · simp [within_joined]
    · rintro p' q' - - ⟨_, ⟨hspelled, rfl⟩, hright'⟩
      exact .mk ((Prod.mk.inj hspelled).1.symm ▸ hoperator) hlevel hright'

/-- A row of operations is padded. -/
theorem Operation.padded {level : Nat} {e : Expression} (hoperation : Operation dialect inner level e p q) :
    Padded true .loose (Within e.items) p q (Operation dialect inner' level e) := by
  obtain ⟨hfirst, hsteps, hstop⟩ := hoperation
  obtain ⟨inside, hinside, hpadded⟩ := padded_steps (fun hjoining => Joining.padded h hjoining) hsteps
  refine ((hfirst.padded hd h).append hpadded).mono hinside ?_
  rintro p' q' - hedge ⟨_, hfirst', hsteps'⟩
  refine .mk hfirst' hsteps' (hedge.elim (motive := fun value => ∀ operator,
    Operator.ofToken? value = some operator → operator.level ≤ level) hstop ?_)
  exact fun _ => nofun

end Writing

end LuaSyntax
