import LuaSyntax.Proofs.Grammar.Twins.Rule
import LuaSyntax.Proofs.Writing.Beginnings

/-!
# Writings carried over

What is written in one row of tokens is written in another if the two are alike as far as the grammar looks,
and what is written in one dialect is written in another whose grammar is the same. `Carries` says so of points
in two rows that belong together, and that they still do behind a token. Of a token that stands between two
operands it may be made use of that an expression begins behind it.

A dialect may know types behind declared names that the first one does not know. Then it has to be seen that no
colon stands there, and none does, since it goes on with no declaration and begins no statement.
-/

namespace LuaSyntax

open Grammar (grammatical)

/-- Points that belong together: the grammar of one dialect sees from the first what that of the other sees from
the second. -/
structure Carries (dialect other : Dialect) (R : Point → Point → Prop) : Prop where
  features : ∀ feature ∈ grammatical, dialect.has feature = other.has feature
  typed : dialect.has .typedIdentifiers = true → other.has .typedIdentifiers = true
  value : ∀ {p p' : Point}, R p p' → p'.token.value = p.token.value
  lexeme : ∀ {p p' : Point}, R p p' → p'.token.lexeme = p.token.lexeme
  ahead : ∀ {p p' : Point}, R p p' → p'.ahead.value = p.ahead.value
  line : ∀ {p p' : Point}, dialect.has .flexibleLineEnd = false → R p p' → p.Faces Symbol.leftParen →
    p.token.start.line = p.previous.stop.line → p'.token.start.line = p'.previous.stop.line
  step : ∀ {p p' : Point}, R p p' →
    ((Operator.ofToken? p.token.value).isSome = true → p.step.token.startsExpression = true) →
    R p.step p'.step

/-- What holds of a point that a given one belongs together with. -/
def Lands (R : Point → Point → Prop) (q : Point) (written : Point → Prop) : Prop :=
  ∃ q', R q q' ∧ written q'

/-- What is nested is carried over. Behind a declaration no colon may stand. -/
structure Writing.Carried (R : Point → Point → Prop) (inner inner' : Writing) : Prop where
  statement : ∀ {v : Option Statement} {p p' q : Point}, inner.statement v p q → R p p' →
    (p.Faces ReservedWord.localWord → ¬ q.Faces Symbol.colon) → Lands R q (inner'.statement v p')
  begins : ∀ {v : Option Statement} {p q : Point}, inner.statement v p q → ¬ p.Faces Symbol.colon
  expression : ∀ {level : Nat} {e : Expression} {p p' q : Point}, inner.expression level e p q → R p p' →
    Lands R q (inner'.expression level e p')
  starts : ∀ {level : Nat} {e : Expression} {p q : Point}, inner.expression level e p q →
    p.token.startsExpression = true
  absent : ∀ {p p' : Point}, inner.absent p → R p p' → inner'.absent p'

variable {dialect other : Dialect} {R : Point → Point → Prop} {inner inner' : Writing} {p p' q : Point}

namespace Carries

variable (h : Carries dialect other R) (hR : R p p')

include h

/-- Both dialects have the same features for the grammar. -/
theorem has {feature : Feature} (hmem : feature ∈ grammatical) : other.has feature = dialect.has feature :=
  (h.features feature hmem).symm

include hR

/-- Points that belong together face the same terminals. -/
theorem faces_iff {terminal : Grammar.Terminal} : p'.Faces terminal ↔ p.Faces terminal := by
  rw [Point.Faces, Point.Faces, h.value hR]

/-- Points that belong together have the same name behind them. -/
theorem names_iff {name : Identifier} : p'.Names name ↔ p.Names name := by
  rw [Point.Names, Point.Names, Token.name?, Token.name?, h.value hR]

/-- Points that belong together have the same literal behind them. -/
theorem denotes_iff {literal : Literal} : p'.Denotes literal ↔ p.Denotes literal := by
  rw [Point.Denotes, Point.Denotes, h.value hR, h.lexeme hR]

/-- Points that belong together are both before a suffix or neither is. -/
theorem startsSuffix_eq : Grammar.startsSuffix p'.token = Grammar.startsSuffix p.token := by
  rw [Grammar.startsSuffix, Grammar.startsSuffix, h.value hR]

/-- Points that belong together are both before the end of a block or neither is. -/
theorem endsBlock_eq : Grammar.endsBlock p'.token = Grammar.endsBlock p.token := by
  rw [Grammar.endsBlock, Grammar.endsBlock, h.value hR]

/-- Points that belong together are both before an expression or neither is. -/
theorem startsExpression_eq : p'.token.startsExpression = p.token.startsExpression := by
  simp only [Token.startsExpression, Token.kind, Token.isWord, Token.isSymbol, h.value hR]

/-- Points that belong together both face a contextual `goto` or neither does. -/
theorem contextualGoto_iff : p'.FacesContextualGoto other ↔ p.FacesContextualGoto dialect := by
  rw [Point.FacesContextualGoto, Point.FacesContextualGoto, h.has (by decide), Token.name?, Token.name?,
    h.value hR, Token.kind, Token.kind, h.ahead hR]

/-- Behind a token that is no operator between operands. -/
theorem pass {terminal : Grammar.Terminal} (hfaces : p.Faces terminal)
    (hterminal : Operator.ofToken? terminal.value = none) : R p.step p'.step := by
  refine h.step hR fun hoperator => ?_
  rw [show p.token.value = _ from hfaces, hterminal] at hoperator
  cases hoperator

/-- Behind a name points still belong together. -/
theorem pass_name {name : Identifier} (hname : p.Names name) : R p.step p'.step := by
  refine h.step hR fun hoperator => ?_
  obtain ⟨spelling, hvalue⟩ := Token.value_of_kind (Token.kind_of_name hname)
  rw [hvalue] at hoperator
  cases hoperator

/-- Behind a literal points still belong together. -/
theorem pass_literal {literal : Literal} (hdenotes : p.Denotes literal) : R p.step p'.step := by
  refine h.step hR fun hoperator => ?_
  have hdenoted := hdenotes.1
  cases hvalue : p.token.value <;> rw [hvalue] at hoperator hdenoted <;> first | cases hoperator | cases hdenoted

/-- Behind a semicolon that may be there points still belong together. -/
theorem skip : R (p.skip Symbol.semicolon) (p'.skip Symbol.semicolon) := by
  by_cases hfaces : p.Faces Symbol.semicolon
  · rw [Point.skip_of_faces hfaces, Point.skip_of_faces ((h.faces_iff hR).mpr hfaces)]
    exact h.pass hR hfaces rfl
  · rw [Point.skip_of_not_faces hfaces, Point.skip_of_not_faces (mt (h.faces_iff hR).mp hfaces)]
    exact hR

end Carries

namespace Writing

variable (h : Carries dialect other R)

include h

/-! ## Rows -/

section Rows

variable {α : Type} {item item' : α → Point → Point → Prop} {items : List α}

omit h in
/-- What holds before a comma and at the end of a row holds behind every item of it. -/
theorem Commas.holds {good : Point → Prop} (hitems : Commas item items p q) (hcomma : ∀ r, r.Faces Symbol.comma → good r)
    (hend : good q) : good p := by
  cases hitems with
  | nil => exact hend
  | cons hfaces => exact hcomma _ hfaces

/-- Things behind commas are carried over if each is. -/
theorem Commas.carried {good : Point → Prop} (hitems : Commas item items p q) (hR : R p p')
    (hitem : ∀ {a p p' q}, item a p q → R p p' → good q → Lands R q (item' a p'))
    (hcomma : ∀ r, r.Faces Symbol.comma → good r) (hend : good q) : Lands R q (Commas item' items p') := by
  induction hitems generalizing p' with
  | nil hstop => exact ⟨p', hR, .nil (mt (h.faces_iff hR).mp hstop)⟩
  | cons hfaces hfirst hrest ih =>
    obtain ⟨q', hq, hfirst'⟩ := hitem hfirst (h.pass hR hfaces rfl) (hrest.holds hcomma hend)
    obtain ⟨r', hr, hrest'⟩ := ih hq hend
    exact ⟨r', hr, .cons ((h.faces_iff hR).mpr hfaces) hfirst' hrest'⟩

/-- A row of things with commas is carried over if each is. -/
theorem Row.carried (good : Point → Prop) (hitems : Row item items p q) (hR : R p p')
    (hitem : ∀ {a p p' q}, item a p q → R p p' → good q → Lands R q (item' a p'))
    (hcomma : ∀ r, r.Faces Symbol.comma → good r) (hend : good q) : Lands R q (Row item' items p') := by
  obtain ⟨hfirst, hrest⟩ := hitems
  obtain ⟨q', hq, hfirst'⟩ := hitem hfirst hR (hrest.holds hcomma hend)
  obtain ⟨r', hr, hrest'⟩ := hrest.carried h hq hitem hcomma hend
  exact ⟨r', hr, .mk hfirst' hrest'⟩

/-- Points that belong together are both before a separator or neither is. -/
theorem Separates.carried_iff (hR : R p p') : Separates p' ↔ Separates p :=
  or_congr (h.faces_iff hR) (h.faces_iff hR)

/-- Fields with separators are carried over if each is. -/
theorem Fields.carried {stop : Point → Prop} (stop' : Point → Prop) (hitems : Fields stop item items p q) (hR : R p p')
    (hstops : ∀ {p p'}, stop p → R p p' → stop' p')
    (hitem : ∀ {a p p' q}, item a p q → R p p' → Lands R q (item' a p')) :
    Lands R q (Fields stop' item' items p') := by
  induction hitems generalizing p' with
  | nil hstop => exact ⟨p', hR, .nil (hstops hstop hR)⟩
  | last hfirst hseparates =>
    obtain ⟨q', hq, hfirst'⟩ := hitem hfirst hR
    exact ⟨q', hq, .last hfirst' (mt (Separates.carried_iff h hq).mp hseparates)⟩
  | more hfirst hseparates _ ih =>
    obtain ⟨q', hq, hfirst'⟩ := hitem hfirst hR
    obtain ⟨r', hr, hrest'⟩ := ih (hseparates.elim (h.pass hq · rfl) (h.pass hq · rfl))
    exact ⟨r', hr, .more hfirst' ((Separates.carried_iff h hq).mpr hseparates) hrest'⟩

end Rows

/-! ## Names -/

/-- A name is carried over. -/
theorem Name.carried {name : Identifier} (hname : Name name p q) (hR : R p p') : Lands R q (Name name p') := by
  cases hname with
  | mk hname => exact ⟨_, h.pass_name hR hname, .mk ((h.names_iff hR).mpr hname)⟩

/-- A name that no colon follows has no type. -/
theorem Declared.carried {name : Declarator} (hname : Declared dialect name p q) (hR : R p p')
    (hcolon : ¬ q.Faces Symbol.colon) : Lands R q (Declared other name p') := by
  cases hname with
  | plain hname =>
    have hbehind := h.pass_name hR hname
    exact ⟨_, hbehind, .plain ((h.names_iff hR).mpr hname) fun hfaces =>
      hcolon ((h.faces_iff hbehind).mp hfaces.2)⟩
  | typed htyped hname hfaces htype =>
    have hbehind := h.pass_name hR hname
    have hinner := h.pass hbehind hfaces rfl
    exact ⟨_, h.pass_name hinner htype, .typed (h.typed htyped) ((h.names_iff hR).mpr hname)
      ((h.faces_iff hbehind).mpr hfaces) ((h.names_iff hinner).mpr htype)⟩

/-- A row of parameters is carried over. -/
theorem ParameterRow.carried {parameters : List Parameter} (hrow : ParameterRow dialect parameters p q)
    (hR : R p p') : Lands R q (ParameterRow other parameters p') := by
  induction hrow generalizing p' with
  | last hname hright =>
    obtain ⟨q', hq, hname'⟩ := Declared.carried h hname hR (hright.not_faces nofun)
    exact ⟨_, h.pass hq hright rfl, .last hname' ((h.faces_iff hq).mpr hright)⟩
  | dots hdenotes hvararg hright =>
    have hbehind := h.pass_literal hR hdenotes
    exact ⟨_, h.pass hbehind hright rfl,
      .dots ((h.denotes_iff hR).mpr hdenotes) hvararg ((h.faces_iff hbehind).mpr hright)⟩
  | more hname hcomma _ ih =>
    obtain ⟨q', hq, hname'⟩ := Declared.carried h hname hR (hcomma.not_faces nofun)
    obtain ⟨r', hr, hrest'⟩ := ih (h.pass hq hcomma rfl)
    exact ⟨r', hr, .more hname' ((h.faces_iff hq).mpr hcomma) hrest'⟩

/-- Parameters in parentheses are carried over. -/
theorem Parameters.carried {parameters : List Parameter} (hparameters : Parameters dialect parameters p q)
    (hR : R p p') : Lands R q (Parameters other parameters p') := by
  cases hparameters with
  | none hleft hright =>
    have hbehind := h.pass hR hleft rfl
    exact ⟨_, h.pass hbehind hright rfl, .none ((h.faces_iff hR).mpr hleft) ((h.faces_iff hbehind).mpr hright)⟩
  | some hleft hrow =>
    obtain ⟨q', hq, hrow'⟩ := hrow.carried h (h.pass hR hleft rfl)
    exact ⟨q', hq, .some ((h.faces_iff hR).mpr hleft) hrow'⟩

/-- A path is carried over. -/
theorem NamePath.carried {path : Expression} (hpath : NamePath path p q) (hR : R p p') :
    Lands R q (NamePath path p') := by
  induction hpath generalizing p' with
  | name hname => exact ⟨_, h.pass_name hR hname, .name ((h.names_iff hR).mpr hname)⟩
  | member _ hdot hname ih =>
    obtain ⟨q', hq, hpath'⟩ := ih hR
    have hbehind := h.pass hq hdot rfl
    exact ⟨_, h.pass_name hbehind hname,
      .member hpath' ((h.faces_iff hq).mpr hdot) ((h.names_iff hbehind).mpr hname)⟩

/-- The name of a function is carried over. -/
theorem FunctionName.carried {name : Expression} (hfunction : FunctionName name p q) (hR : R p p') :
    Lands R q (FunctionName name p') := by
  cases hfunction with
  | function hpath =>
    obtain ⟨q', hq, hpath'⟩ := hpath.carried h hR
    exact ⟨q', hq, .function hpath'⟩
  | method hpath hcolon hname =>
    obtain ⟨q', hq, hpath'⟩ := hpath.carried h hR
    have hbehind := h.pass hq hcolon rfl
    exact ⟨_, h.pass_name hbehind hname,
      .method hpath' ((h.faces_iff hq).mpr hcolon) ((h.names_iff hbehind).mpr hname)⟩

variable (hinner : Carried R inner inner')

include hinner

/-! ## Blocks and functions -/

omit h in
/-- No colon stands where statements begin or end. -/
theorem Statements.not_colon {statements : List Statement} (hstatements : Statements dialect inner statements p q) :
    ¬ p.Faces Symbol.colon := by
  cases hstatements with
  | nil hend =>
    intro hcolon
    rw [Grammar.endsBlock, show p.token.value = _ from hcolon] at hend
    cases hend
  | last hreturn => exact hreturn.not_faces (by decide)
  | lastBreak hbreak => exact hbreak.not_faces (by decide)
  | more _ _ _ hstatement => exact hinner.begins hstatement

/-- Statements are carried over if what is nested is. -/
theorem Statements.carried {statements : List Statement} (hstatements : Statements dialect inner statements p q)
    (hR : R p p') : Lands R q (Statements other inner' statements p') := by
  induction hstatements generalizing p' with
  | nil hend => exact ⟨p', hR, .nil ((h.endsBlock_eq hR).trans hend)⟩
  | last hreturn hstatement =>
    obtain ⟨q', hq, hstatement'⟩ := hinner.statement hstatement hR fun hlocal =>
      absurd hlocal (hreturn.not_faces nofun)
    exact ⟨q', hq, .last ((h.faces_iff hR).mpr hreturn) hstatement'⟩
  | lastBreak hbreak hlast hstatement =>
    obtain ⟨q', hq, hstatement'⟩ := hinner.statement hstatement hR fun hlocal =>
      absurd hlocal (hbreak.not_faces nofun)
    exact ⟨_, h.skip hq, .lastBreak ((h.faces_iff hR).mpr hbreak) ((h.has (by decide)).trans hlast) hstatement'⟩
  | @more _ _ _ q _ hbegin hreturn hbreak hstatement hrest ih =>
    have hcolon : ¬ q.Faces Symbol.colon := fun hfaces => by
      have hbehind := Statements.not_colon hinner hrest
      rw [Point.skip_of_not_faces (hfaces.not_faces (by decide))] at hbehind
      exact hbehind hfaces
    obtain ⟨q', hq, hstatement'⟩ := hinner.statement hstatement hR fun _ => hcolon
    obtain ⟨r', hr, hrest'⟩ := ih (h.skip hq)
    refine ⟨r', hr, .more ((h.endsBlock_eq hR).trans hbegin) (mt (h.faces_iff hR).mp hreturn) ?_ hstatement' hrest'⟩
    rw [h.faces_iff hR, h.has (by decide)]
    exact hbreak

/-- The body of a function is carried over. -/
theorem FunctionBody.carried {function : Function} (hbody : FunctionBody dialect inner function p q)
    (hR : R p p') : Lands R q (FunctionBody other inner' function p') := by
  obtain ⟨hparameters, hstatements, hend⟩ := hbody
  obtain ⟨q', hq, hparameters'⟩ := hparameters.carried h hR
  obtain ⟨r', hr, hstatements'⟩ := hstatements.carried h hinner hq
  exact ⟨_, h.pass hr hend rfl, .mk hparameters' hstatements' ((h.faces_iff hr).mpr hend)⟩

/-! ## Lists and constructors -/

/-- A row of expressions is carried over. -/
theorem carried_row {expressions : List Expression} {level : Nat} (hrow : Row (inner.expression level) expressions p q)
    (hR : R p p') : Lands R q (Row (inner'.expression level) expressions p') :=
  hrow.carried h (fun _ => True) hR (fun hexpression hR _ => hinner.expression hexpression hR)
    (fun _ _ => trivial) trivial

/-- Any number of expressions is carried over. -/
theorem OptionalList.carried {expressions : List Expression} (hlist : OptionalList inner expressions p q)
    (hR : R p p') : Lands R q (OptionalList inner' expressions p') := by
  cases hlist with
  | none habsent => exact ⟨p', hR, .none (hinner.absent habsent hR)⟩
  | some hrow =>
    obtain ⟨q', hq, hrow'⟩ := carried_row h hinner hrow hR
    exact ⟨q', hq, .some hrow'⟩

/-- A field of a table is carried over. -/
theorem Field.carried {field : TableField} (hfield : Field inner field p q) (hR : R p p') :
    Lands R q (Field inner' field p') := by
  cases hfield with
  | keyed hleft hkey hright hassign hvalue =>
    obtain ⟨q', hq, hkey'⟩ := hinner.expression hkey (h.pass hR hleft rfl)
    have hbehind := h.pass hq hright rfl
    obtain ⟨r', hr, hvalue'⟩ := hinner.expression hvalue (h.pass hbehind hassign rfl)
    exact ⟨r', hr, .keyed ((h.faces_iff hR).mpr hleft) hkey' ((h.faces_iff hq).mpr hright)
      ((h.faces_iff hbehind).mpr hassign) hvalue'⟩
  | named hname hassign hvalue =>
    have hbehind := h.pass_name hR hname
    obtain ⟨r', hr, hvalue'⟩ := hinner.expression hvalue (h.pass hbehind hassign rfl)
    exact ⟨r', hr, .named ((h.names_iff hR).mpr hname) ((h.faces_iff hbehind).mpr hassign) hvalue'⟩
  | positional hleft hnamed hvalue =>
    obtain ⟨q', hq, hvalue'⟩ := hinner.expression hvalue hR
    refine ⟨q', hq, .positional (mt (h.faces_iff hR).mp hleft) ?_ hvalue'⟩
    rwa [Token.kind, h.value hR, Point.Faces, Point.token_step, h.ahead hR]

/-- A table is carried over. -/
theorem TableBody.carried {table : Table} (htable : TableBody inner table p q) (hR : R p p') :
    Lands R q (TableBody inner' table p') := by
  obtain ⟨hfields, hright⟩ := htable
  obtain ⟨q', hq, hfields'⟩ := hfields.carried h (fun p => inner'.absent p ∧ ¬ p.Faces Symbol.leftBracket) hR
    (fun hstop hR => ⟨hinner.absent hstop.1 hR, mt (h.faces_iff hR).mp hstop.2⟩)
    fun hfield hR => Field.carried h hinner hfield hR
  exact ⟨_, h.pass hq hright rfl, .mk hfields' ((h.faces_iff hq).mpr hright)⟩

/-- A field of a structure is carried over. -/
theorem StructureField.carried {field : MakeField} (hfield : StructureField inner field p q) (hR : R p p') :
    Lands R q (StructureField inner' field p') := by
  obtain ⟨hname, hassign, hvalue⟩ := hfield
  have hbehind := h.pass_name hR hname
  obtain ⟨r', hr, hvalue'⟩ := hinner.expression hvalue (h.pass hbehind hassign rfl)
  exact ⟨r', hr, .mk ((h.names_iff hR).mpr hname) ((h.faces_iff hbehind).mpr hassign) hvalue'⟩

/-! ## Suffixes -/

variable {a b : Expression × Point}

/-- The arguments of a call are carried over. -/
theorem Arguments.carried (harguments : Arguments dialect inner a b) (hR : R a.2 p') :
    Lands R b.2 fun q' => Arguments other inner' (a.1, p') (b.1, q') := by
  cases harguments with
  | list hleft hline hlist hright =>
    obtain ⟨q', hq, hlist'⟩ := hlist.carried h hinner (h.pass hR hleft rfl)
    refine ⟨_, h.pass hq hright rfl, .list ((h.faces_iff hR).mpr hleft) (fun hflexible => ?_) hlist'
      ((h.faces_iff hq).mpr hright)⟩
    rw [h.has (by decide)] at hflexible
    exact h.line hflexible hR hleft (hline hflexible)
  | table hleft htable =>
    obtain ⟨q', hq, htable'⟩ := htable.carried h hinner (h.pass hR hleft rfl)
    exact ⟨q', hq, .table ((h.faces_iff hR).mpr hleft) htable'⟩
  | string hdenotes hvalue =>
    exact ⟨_, h.pass_literal hR hdenotes, .string ((h.denotes_iff hR).mpr hdenotes) hvalue⟩

/-- A suffix is carried over. -/
theorem Suffix.carried (hsuffix : Suffix dialect inner a b) (hR : R a.2 p') :
    Lands R b.2 fun q' => Suffix other inner' (a.1, p') (b.1, q') := by
  cases hsuffix with
  | index hleft hindex hright =>
    obtain ⟨q', hq, hindex'⟩ := hinner.expression hindex (h.pass hR hleft rfl)
    exact ⟨_, h.pass hq hright rfl, .index ((h.faces_iff hR).mpr hleft) hindex' ((h.faces_iff hq).mpr hright)⟩
  | member hdot hname =>
    have hbehind := h.pass hR hdot rfl
    exact ⟨_, h.pass_name hbehind hname,
      .member ((h.faces_iff hR).mpr hdot) ((h.names_iff hbehind).mpr hname)⟩
  | method hcolon hname harguments =>
    have hbehind := h.pass hR hcolon rfl
    obtain ⟨q', hq, harguments'⟩ := harguments.carried h hinner (h.pass_name hbehind hname)
    exact ⟨q', hq, .method ((h.faces_iff hR).mpr hcolon) ((h.names_iff hbehind).mpr hname) harguments'⟩
  | arguments harguments =>
    obtain ⟨q', hq, harguments'⟩ := harguments.carried h hinner hR
    exact ⟨q', hq, .arguments harguments'⟩

omit h hinner in
/-- Steps that are carried over one by one are carried over together. -/
theorem carried_steps {step step' : Expression × Point → Expression × Point → Prop}
    (hstep : ∀ {a b p'}, step a b → R a.2 p' → Lands R b.2 fun q' => step' (a.1, p') (b.1, q'))
    (hsteps : Relation.ReflTransGen step a b) (hR : R a.2 p') :
    Lands R b.2 fun q' => Relation.ReflTransGen step' (a.1, p') (b.1, q') := by
  induction hsteps with
  | refl => exact ⟨p', hR, .refl⟩
  | tail _ hlast ih =>
    obtain ⟨q', hq, hsteps'⟩ := ih
    obtain ⟨r', hr, hlast'⟩ := hstep hlast hq
    exact ⟨r', hr, hsteps'.tail hlast'⟩

/-- Suffixes are carried over. -/
theorem Suffixes.carried (hsuffixes : Suffixes dialect inner a b) (hR : R a.2 p') :
    Lands R b.2 fun q' => Suffixes other inner' (a.1, p') (b.1, q') :=
  carried_steps (fun hsuffix hR => Suffix.carried h hinner hsuffix hR) hsuffixes hR

/-- An expression in parentheses is carried over. -/
theorem Enclosed.carried {e : Expression} (henclosed : Enclosed inner e p q) (hR : R p p') :
    Lands R q (Enclosed inner' e p') := by
  obtain ⟨hleft, hexpression, hright⟩ := henclosed
  obtain ⟨q', hq, hexpression'⟩ := hinner.expression hexpression (h.pass hR hleft rfl)
  exact ⟨_, h.pass hq hright rfl, .mk ((h.faces_iff hR).mpr hleft) hexpression' ((h.faces_iff hq).mpr hright)⟩

/-- An expression with suffixes is carried over. -/
theorem Suffixed.carried {bare : Bool} {e : Expression} (hsuffixed : Suffixed dialect inner bare e p q)
    (hR : R p p') : Lands R q (Suffixed other inner' bare e p') := by
  cases hsuffixed with
  | name hname hsuffixes hstop =>
    obtain ⟨q', hq, hsuffixes'⟩ := hsuffixes.carried h hinner (h.pass_name hR hname)
    exact ⟨q', hq, .name ((h.names_iff hR).mpr hname) hsuffixes' ((h.startsSuffix_eq hq).trans hstop)⟩
  | enclosed henclosed hsuffixes hstop =>
    obtain ⟨q', hq, henclosed'⟩ := henclosed.carried h hinner hR
    obtain ⟨r', hr, hsuffixes'⟩ := hsuffixes.carried h hinner hq
    rw [← h.startsSuffix_eq hq]
    exact ⟨r', hr, .enclosed henclosed' hsuffixes' ((h.startsSuffix_eq hr).trans hstop)⟩

/-! ## Operators -/

/-- An operand is carried over. -/
theorem Operand.carried {e : Expression} (hoperand : Operand dialect inner e p q) (hR : R p p') :
    Lands R q (Operand other inner' e p') := by
  cases hoperand with
  | literal hdenotes => exact ⟨_, h.pass_literal hR hdenotes, .literal ((h.denotes_iff hR).mpr hdenotes)⟩
  | function hfunction hbody =>
    obtain ⟨q', hq, hbody'⟩ := hbody.carried h hinner (h.pass hR hfunction rfl)
    exact ⟨q', hq, .function ((h.faces_iff hR).mpr hfunction) hbody'⟩
  | table hleft htable =>
    obtain ⟨q', hq, htable'⟩ := htable.carried h hinner (h.pass hR hleft rfl)
    exact ⟨q', hq, .table ((h.faces_iff hR).mpr hleft) htable'⟩
  | make hmake htype hleft hfields hright =>
    have hbehind := h.pass hR hmake rfl
    have hbehindType := h.pass_name hbehind htype
    obtain ⟨q', hq, hfields'⟩ := hfields.carried h (fun p => p.Faces Symbol.rightBrace)
      (h.pass hbehindType hleft rfl) (fun hstop hR => (h.faces_iff hR).mpr hstop)
      fun hfield hR => StructureField.carried h hinner hfield hR
    exact ⟨_, h.pass hq hright rfl, .make ((h.faces_iff hR).mpr hmake) ((h.names_iff hbehind).mpr htype)
      ((h.faces_iff hbehindType).mpr hleft) hfields' ((h.faces_iff hq).mpr hright)⟩
  | suffixed hsuffixed =>
    obtain ⟨q', hq, hsuffixed'⟩ := hsuffixed.carried h hinner hR
    exact ⟨q', hq, .suffixed hsuffixed'⟩
  | unary hoperator hargument =>
    obtain ⟨q', hq, hargument'⟩ := hinner.expression hargument (h.step hR fun _ => hinner.starts hargument)
    exact ⟨q', hq, .unary ((h.value hR).symm ▸ hoperator) hargument'⟩

/-- Behind an operator an expression begins. -/
theorem Joining.carried {level : Nat} (hjoining : Joining inner level a b) (hR : R a.2 p') :
    Lands R b.2 fun q' => Joining inner' level (a.1, p') (b.1, q') := by
  cases hjoining with
  | mk hoperator hlevel hright =>
    obtain ⟨q', hq, hright'⟩ := hinner.expression hright (h.step hR fun _ => hinner.starts hright)
    exact ⟨q', hq, .mk ((h.value hR).symm ▸ hoperator) hlevel hright'⟩

/-- A row of operations is carried over. -/
theorem Operation.carried {level : Nat} {e : Expression} (hoperation : Operation dialect inner level e p q)
    (hR : R p p') : Lands R q (Operation other inner' level e p') := by
  obtain ⟨hfirst, hsteps, hstop⟩ := hoperation
  obtain ⟨q', hq, hfirst'⟩ := hfirst.carried h hinner hR
  obtain ⟨r', hr, hsteps'⟩ := carried_steps (fun hjoining hR => Joining.carried h hinner hjoining hR) hsteps hq
  exact ⟨r', hr, .mk hfirst' hsteps' ((h.value hr).symm ▸ hstop)⟩

end Writing

end LuaSyntax
