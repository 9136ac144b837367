import LuaSyntax.Proofs.Grammar.Complete.Block
import LuaSyntax.Proofs.Grammar.Sound.Expression
import LuaSyntax.Proofs.Writing.Beginnings

/-!
# Expressions, given

Where an expression is written that may stand there, the rule for it gives it. Every rule takes all that
it can, and what is written is as long as it can be, so the two agree on where it ends.

An expression may stand in a place only if its parts may. A method may not, but nothing that is written
is a method: what is written of one goes on with its arguments.
-/

namespace LuaSyntax

open Writing

variable {dialect : Dialect} {inner : Writing} {flow : Flow} {p q : Point}

/-! ## Rows -/

namespace Writing

variable {α : Type} {item : α → Point → Point → Prop} {property : α → Prop} {items : List α}
  {stop : Point → Prop}

/-- A row of things that have a property besides. -/
theorem Commas.with (h : Commas item items p q) (hall : ∀ a ∈ items, property a) :
    Commas (fun a p q => item a p q ∧ property a) items p q := by
  induction h with
  | nil hstop => exact .nil hstop
  | cons hcomma hitem _ ih =>
    obtain ⟨hfirst, hrest⟩ := List.forall_mem_cons.mp hall
    exact .cons hcomma ⟨hitem, hfirst⟩ (ih hrest)

/-- What holds of all items of a row holds of each where it is written. -/
theorem Row.with (h : Row item items p q) (hall : ∀ a ∈ items, property a) :
    Row (fun a p q => item a p q ∧ property a) items p q := by
  obtain ⟨hitem, hrest⟩ := h
  obtain ⟨hfirst, hall⟩ := List.forall_mem_cons.mp hall
  exact .mk ⟨hitem, hfirst⟩ (hrest.with hall)

/-- What holds of all fields holds of each where it is written. -/
theorem Fields.with (h : Fields stop item items p q) (hall : ∀ a ∈ items, property a) :
    Fields stop (fun a p q => item a p q ∧ property a) items p q := by
  induction h with
  | nil hstop => exact .nil hstop
  | last hitem hstop => exact .last ⟨hitem, hall _ (List.mem_singleton_self _)⟩ hstop
  | more hitem hseparates _ ih =>
    obtain ⟨hfirst, hrest⟩ := List.forall_mem_cons.mp hall
    exact .more ⟨hitem, hfirst⟩ hseparates (ih hrest)

/-- A property goes back along steps that keep another. -/
theorem steps_back {P : Type} {step : P → P → Prop} {kept property : P → Prop} {a b : P}
    (hstep : ∀ a b, step a b → kept a → kept b ∧ (property b → property a))
    (h : Relation.ReflTransGen step a b) (ha : kept a) (hb : property b) :
    property a ∧ Relation.ReflTransGen (fun a b => step a b ∧ property b) a b := by
  induction h using Relation.ReflTransGen.head_induction_on with
  | refl => exact ⟨hb, .refl⟩
  | head hfirst _ ih =>
    obtain ⟨hkept, hback⟩ := hstep _ _ hfirst ha
    obtain ⟨hproperty, hsteps⟩ := ih hkept
    exact ⟨hback hproperty, .head ⟨hfirst, hproperty⟩ hsteps⟩

/-- What goes on with something makes no method of it, and may stand only where that may. -/
theorem Suffix.back {a b : Expression × Point} (h : Suffix dialect inner a b)
    (hmethod : a.1.isMethod = false) : b.1.isMethod = false ∧
      ∀ around, b.1.WellFormed around false → a.1.WellFormed around false := by
  have harguments {a b : Expression × Point} (h : Arguments dialect inner a b) :
      b.1.isMethod = false ∧ ∀ around, b.1.WellFormed around false → a.1.WellFormed around true := by
    cases h with
    | list => exact ⟨rfl, fun _ => And.left⟩
    | table => exact ⟨rfl, fun _ => And.left⟩
    | string => exact ⟨rfl, fun _ => And.left⟩
  cases h with
  | index => exact ⟨rfl, fun _ => And.left⟩
  | member => exact ⟨rfl, fun _ => And.right⟩
  | method _ _ h => exact ⟨(harguments h).1, fun around hb => ((harguments h).2 around hb).2⟩
  | arguments h =>
    exact ⟨(harguments h).1, fun around hb => ((harguments h).2 around hb).uncalled hmethod⟩

/-- A base that well-formed suffixes go on from is well-formed, and so is all between. -/
theorem Suffixes.back {around : Surroundings} {a b : Expression × Point}
    (h : Suffixes dialect inner a b) (hmethod : a.1.isMethod = false)
    (hb : b.1.WellFormed around false) : a.1.WellFormed around false ∧
      Relation.ReflTransGen (fun a b => Suffix dialect inner a b ∧ b.1.WellFormed around false) a b :=
  steps_back (fun _ _ hstep ha => ⟨(hstep.back ha).1, (hstep.back ha).2 around⟩) h hmethod hb

/-- No suffix that is written ends in a method that is not called. -/
theorem Suffixes.isMethod_eq {a b : Expression × Point} (h : Suffixes dialect inner a b)
    (hmethod : a.1.isMethod = false) : b.1.isMethod = false := by
  induction h with
  | refl => exact hmethod
  | tail _ hstep ih => exact (hstep.back ih).1

/-- What an operator joins may stand where the whole may. -/
theorem Joining.back {around : Surroundings} {level : Nat} {a b : Expression × Point}
    (h : Joining inner level a b) (hb : b.1.WellFormed around false) : a.1.WellFormed around false := by
  cases h with
  | @mk operator =>
    cases operator with
    | logical => exact hb.1
    | binary => exact hb.1

/-- An operand that well-formed operators join is well-formed, and so is all between. -/
theorem joinings_back {around : Surroundings} {level : Nat} {a b : Expression × Point}
    (h : Relation.ReflTransGen (Joining inner level) a b) (hb : b.1.WellFormed around false) :
    a.1.WellFormed around false ∧ Relation.ReflTransGen
      (fun a b => Joining inner level a b ∧ b.1.WellFormed around false) a b :=
  steps_back (fun _ _ hstep (_ : True) => ⟨trivial, hstep.back⟩) h trivial hb

/-- No method is written. -/
theorem Operation.isMethod_eq (hinner : ∀ {level : Nat} {v : Expression} {p q : Point},
      inner.expression level v p q → v.isMethod = false) {level : Nat} {v : Expression}
    (h : Operation dialect inner level v p q) : v.isMethod = false := by
  obtain ⟨hfirst, hsteps, -⟩ := h
  rcases hsteps.cases_tail with heq | ⟨_, -, hstep⟩
  · obtain ⟨rfl, rfl⟩ := Prod.mk.inj heq
    cases hfirst with
    | suffixed h =>
      cases h with
      | name _ hsuffixes => exact hsuffixes.isMethod_eq rfl
      | enclosed henclosed hsuffixes =>
        obtain ⟨-, hbase, -⟩ := henclosed
        exact hsuffixes.isMethod_eq (hinner hbase)
    | _ => rfl
  · cases hstep with
    | @mk operator => cases operator <;> rfl

end Writing

namespace Grammar

open Rule

section Rows

variable {α : Type} {item : α → Point → Point → Prop} {items : List α} {stop : Point → Prop}

/-- What follows commas in a row is read item by item. -/
theorem listed_of_commas (h : Commas item items p q) : Listed (CommaRead item) items p q := by
  induction h with
  | nil hcomma => exact .none ⟨hcomma, rfl⟩
  | cons hcomma hitem _ ih => exact .some ⟨hcomma, hitem⟩ ih

/-- Fields that are written in a row are read turn by turn. -/
theorem turned_of_fields (h : Fields stop item items p q) :
    Turned (FieldTurnRead stop item) items p q := by
  induction h with
  | nil hstop => exact .stop ⟨hstop, rfl⟩
  | last hitem hstop => exact .last ⟨hitem, hstop⟩
  | more hitem hseparates _ ih => exact .more ⟨_, hitem, hseparates, rfl⟩ ih

end Rows

/-- What a field is turned into by what stands behind it. -/
theorem FieldTurnRead.cases {α : Type} {stop : Point → Prop} {item : α → Point → Point → Prop}
    {v : Turn α} (h : FieldTurnRead stop item v p q) :
    (v = .stop ∧ stop p ∧ q = p) ∨ ∃ value m, item value p m ∧
      ((¬ Separates m ∧ v = .last value ∧ q = m) ∨ (Separates m ∧ v = .more value ∧ q = m.step)) := by
  cases v with
  | stop => exact .inl ⟨rfl, h⟩
  | last value => exact .inr ⟨value, q, h.1, .inl ⟨h.2, rfl, rfl⟩⟩
  | more value =>
    obtain ⟨m, hitem, hseparates, rfl⟩ := h
    exact .inr ⟨value, m, hitem, .inr ⟨hseparates, rfl, rfl⟩⟩

/-- A separator behind a field is taken if there is one. -/
theorem separator_gives {α : Type} [Blurred α] {value value' : α} {v : Turn α}
    (hvalue : Same value value')
    (h : (¬ Separates p ∧ v = .last value ∧ q = p) ∨ (Separates p ∧ v = .more value ∧ q = p.step)) :
    (at? Symbol.comma >>= fun comma => at? Symbol.semicolon >>= fun semicolon =>
      if (comma || semicolon) = true then advance >>= fun _ => pure (.more value')
      else pure (.last value')).Gives dialect flow p (Same v) flow q := by
  refine .at? (.at? ?_)
  rcases h with ⟨hseparates, rfl, rfl⟩ | ⟨hseparates, rfl, rfl⟩
  · exact .no (by simpa [Separates] using hseparates) (.give (same_last.mpr hvalue))
  · exact .yes (by simpa [Separates] using hseparates)
      (.advance (hseparates.elim (·.isEnd_eq) (·.isEnd_eq)) (.give (same_more.mpr hvalue)))

/-! ## Lists -/

section

variable {nested : Nested} (hn : nested.Complete dialect inner)

include hn

/-- An expression that has to be there is read as it is written. -/
theorem required_gives {level : Nat} {v : Expression} (h : inner.expression level v p q)
    (hwellFormed : v.WellFormed (flow.surroundings dialect) false) :
    (required (nested.expression level)).Gives dialect flow p (Same v) flow q := by
  have hread : ExpressionRead dialect inner level flow p (some v) q := ⟨h, hwellFormed⟩
  refine (hn.expression hread).bind fun found hfound => ?_
  cases found with
  | none => exact absurd hfound not_same_some_none
  | some expression => exact .give (same_some.mp hfound)

/-- An expression is read as it is written. -/
theorem expression_gives {v : Expression} (h : inner.expression 0 v p q)
    (hwellFormed : v.WellFormed (flow.surroundings dialect) false) :
    (expression nested).Gives dialect flow p (Same v) flow q :=
  required_gives hn h hwellFormed

/-- A comma and what follows it is read as it is written. -/
theorem commaExpression_gives {v : Option Expression}
    (h : CommaRead (fun v p q => inner.expression 0 v p q ∧
      v.WellFormed (flow.surroundings dialect) false) v p q) :
    (commaExpression nested).Gives dialect flow p (Same v) flow q := by
  cases v with
  | none =>
    obtain ⟨hcomma, rfl⟩ := h
    exact .unlessConsume hcomma (.give rfl)
  | some v =>
    obtain ⟨hcomma, hwritten, hwellFormed⟩ := h
    exact .ifConsume hcomma ((expression_gives hn hwritten hwellFormed).bind fun _ hv =>
      .give (same_some.mpr hv))

/-- The expressions behind the first are read as they are written. -/
theorem moreExpressions_gives {expressions : List Expression}
    (h : Commas (inner.expression 0) expressions p q)
    (hwellFormed : wellFormedExpressions (flow.surroundings dialect) expressions) :
    (many (commaExpression nested)).Gives dialect flow p (Same expressions) flow q :=
  Gives.manyReads (commaExpression_advances hn.advances) (fun _ _ _ => commaExpression_gives hn)
    (listed_of_commas (h.with (wellFormedExpressions_iff.mp hwellFormed)))

/-- A list of expressions is read as it is written. -/
theorem expressionList_gives {expressions : List Expression}
    (h : Row (inner.expression 0) expressions p q)
    (hwellFormed : wellFormedExpressions (flow.surroundings dialect) expressions) :
    (expressionList nested).Gives dialect flow p (Same expressions) flow q := by
  obtain ⟨hfirst, hrest⟩ := h
  exact (expression_gives hn hfirst hwellFormed.1).bind fun _ hfirst =>
    (moreExpressions_gives hn hrest hwellFormed.2).bind fun _ hrest =>
      .give (same_cons.mpr ⟨hfirst, hrest⟩)

/-- A list that may be missing is read as it is written. -/
theorem optionalList_gives {expressions : List Expression} (h : OptionalList inner expressions p q)
    (hwellFormed : wellFormedExpressions (flow.surroundings dialect) expressions) :
    (optionalList nested).Gives dialect flow p (Same expressions) flow q := by
  cases h with
  | none hnone =>
    have hread : ExpressionRead dialect inner 0 flow p none p := ⟨rfl, hnone⟩
    refine (hn.expression hread).bind fun found hfound => ?_
    cases found with
    | none => exact .give rfl
    | some => exact absurd hfound not_same_none_some
  | some h =>
    obtain ⟨hfirst, hrest⟩ := h
    have hread : ExpressionRead dialect inner 0 flow p (some _) _ := ⟨hfirst, hwellFormed.1⟩
    refine (hn.expression hread).bind fun found hfound => ?_
    cases found with
    | none => exact absurd hfound not_same_some_none
    | some first =>
      exact (moreExpressions_gives hn hrest hwellFormed.2).bind fun _ hrest =>
        .give (same_cons.mpr ⟨same_some.mp hfound, hrest⟩)

/-! ## Constructors -/

/-- A field of a table is read as it is written, or found to be missing. -/
theorem tableField_gives {v : Option TableField} (h : TableFieldRead dialect inner flow p v q) :
    (tableField nested).Gives dialect flow p (Same v) flow q := by
  refine .quiet quiet_mark fun start _ => ?_
  cases v with
  | none =>
    obtain ⟨rfl, habsent, hbracket⟩ := h
    refine .unlessConsume hbracket (.current (.read fun total s hs => .no (fun hnamed => ?_) ?_))
    · have hkind := (Bool.and_eq_true_iff.mp hnamed).1
      have hstarts := hn.absent habsent
      simp [Token.startsExpression, hkind] at hstarts
    · have hread : ExpressionRead dialect inner 0 flow q none q := ⟨rfl, habsent⟩
      refine (hn.expression hread).bind fun found hfound => ?_
      cases found with
      | none => exact .give rfl
      | some => exact absurd hfound not_same_none_some
  | some field =>
    obtain ⟨hfield, hwellFormed⟩ := h
    cases hfield with
    | keyed hleft hkey hright hassign hvalue =>
      exact .ifConsume hleft ((expression_gives hn hkey hwellFormed.1).bind fun _ hkey =>
        .expect hright (.expect hassign ((expression_gives hn hvalue hwellFormed.2).bind fun _ hvalue =>
          .quiet (quiet_placed start) fun _ _ => .give (same_some.mpr (same_keyed hkey hvalue)))))
    | named hname hassign hvalue =>
      refine .unlessConsume hname.not_faces (.current (.read fun total s hs => .yes ?_ ?_))
      · rw [kind_of_names hname, hs.lookahead, Token.isSymbol, show p.ahead.value = _ from hassign]
        rfl
      · exact .identifier hname fun _ hkey => .advance hassign.isEnd_eq
          ((expression_gives hn hvalue hwellFormed).bind fun _ hvalue => .quiet (quiet_placed start)
            fun _ _ => .give (same_some.mpr (same_named hkey hvalue)))
    | positional hbracket hnot hvalue =>
      refine .unlessConsume hbracket (.current (.read fun total s hs => .no (fun hnamed => ?_) ?_))
      · rw [hs.lookahead, Bool.and_eq_true_iff, beq_iff_eq] at hnamed
        exact hnot ⟨hnamed.1, beq_iff_eq.mp hnamed.2⟩
      · have hread : ExpressionRead dialect inner 0 flow p (some _) _ := ⟨hvalue, hwellFormed⟩
        refine (hn.expression hread).bind fun found hfound => ?_
        cases found with
        | none => exact absurd hfound not_same_some_none
        | some value =>
          exact .quiet (quiet_placed start) fun _ _ =>
            .give (same_some.mpr (same_positional (same_some.mp hfound)))

/-- A field and its separator are read as they are written. -/
theorem tableTurn_gives {v : Turn TableField}
    (h : FieldTurnRead (fun p => inner.absent p ∧ ¬ p.Faces Symbol.leftBracket)
      (fun v p q => Field inner v p q ∧ v.WellFormed (flow.surroundings dialect)) v p q) :
    (tableTurn nested).Gives dialect flow p (Same v) flow q := by
  rcases FieldTurnRead.cases h with ⟨rfl, hstop, rfl⟩ | ⟨field, m, hfield, hbehind⟩
  · have hread : TableFieldRead dialect inner flow q none q := ⟨rfl, hstop⟩
    refine (tableField_gives hn hread).bind fun found hfound => ?_
    cases found with
    | none => exact .give rfl
    | some => exact absurd hfound not_same_none_some
  · have hread : TableFieldRead dialect inner flow p (some field) m := hfield
    refine (tableField_gives hn hread).bind fun found hfound => ?_
    cases found with
    | none => exact absurd hfound not_same_some_none
    | some field' => exact .quiet (quiet_complete _) fun _ _ => separator_gives (same_some.mp hfound) hbehind

/-- The fields of a table are read as they are written, up to its brace. -/
theorem tableBody_gives (start : Place) {table : Table} (h : TableBody inner table p q)
    (hwellFormed : table.WellFormed (flow.surroundings dialect)) :
    (tableBody nested start).Gives dialect flow p (Same table) flow q := by
  obtain ⟨hfields, hright⟩ := h
  have hturns := turned_of_fields (hfields.with (wellFormedTableFields_iff.mp hwellFormed))
  exact (Gives.repeatedReads (Pairing.tableTurn_advances hn.advances)
    (fun _ _ _ => tableTurn_gives hn) hturns).bind fun _ hfields => .expect hright
      (.quiet (quiet_placed start) fun _ _ => .quiet (quiet_complete _) fun _ _ =>
        .give (same_table hfields))

/-- A field of a structure and its separator are read as they are written. -/
theorem makeTurn_gives {v : Turn MakeField}
    (h : FieldTurnRead (fun p => p.Faces Symbol.rightBrace)
      (fun v p q => StructureField inner v p q ∧ v.WellFormed (flow.surroundings dialect)) v p q) :
    (makeTurn nested).Gives dialect flow p (Same v) flow q := by
  rcases FieldTurnRead.cases h with ⟨rfl, hright, rfl⟩ | ⟨field, m, ⟨hfield, hwellFormed⟩, hbehind⟩
  · exact .ifAt hright (.give rfl)
  · obtain ⟨hkey, hassign, hvalue⟩ := hfield
    exact .unlessAt hkey.not_faces (.quiet quiet_mark fun start _ => .identifier hkey fun _ hkey =>
      .expect hassign ((expression_gives hn hvalue hwellFormed).bind fun _ hvalue =>
        .quiet (quiet_placed start) fun _ _ => .quiet (quiet_complete _) fun _ _ =>
          separator_gives (same_makeField hkey hvalue) hbehind))

/-! ## Operands without suffixes -/

omit hn in
/-- Where neither a literal nor a constructor begins there is no operand without suffixes. -/
theorem primary_gives_none (hliteral : (literalValue? p.token.value).isSome = false)
    (hfunction : ¬ p.Faces ReservedWord.functionWord) (hbrace : ¬ p.Faces Symbol.leftBrace)
    (hmake : ¬ p.Faces ReservedWord.hmakeWord) :
    (primary nested).Gives dialect flow p (Same none) flow p :=
  .quiet quiet_mark fun _ _ => .current (.no (ne_true_of_eq_false hliteral) (.unlessConsume hfunction
    (.unlessConsume hbrace (.unlessConsume hmake (.give rfl)))))

omit hn in
/-- A keyword or a symbol denotes nothing. -/
theorem not_isSome_of_faces {terminal : Terminal} (h : p.Faces terminal) :
    ¬ (literalValue? p.token.value).isSome = true := by
  rw [show p.token.value = _ from h]
  cases terminal <;> exact Bool.false_ne_true

/-- A function without a name is read as it is written. -/
theorem functionExpression_gives {parameters : List Parameter} {body : Block} {placement : Placement}
    (hfunction : p.Faces ReservedWord.functionWord)
    (h : FunctionBody dialect inner (.mk none false parameters body placement) p.step q)
    (hwellFormed : (Function.mk none false parameters body placement).WellFormed
      (flow.surroundings dialect)) :
    (primary nested).Gives dialect flow p
      (Same (some (Expression.function (.mk none false parameters body placement)))) flow q := by
  refine .quiet quiet_mark fun start _ => .current (.no (not_isSome_of_faces hfunction)
    (.ifConsume hfunction ((functionBody_gives hn false start (.refl none) h hwellFormed).bind
      fun function hsame => .quiet (quiet_completed _) ?_)))
  rintro _ rfl
  exact .give (same_some.mpr (same_functionExpression hsame))

/-- A table is read as it is written. -/
theorem tableExpression_gives {table : Table} (hleft : p.Faces Symbol.leftBrace)
    (h : TableBody inner table p.step q) (hwellFormed : table.WellFormed (flow.surroundings dialect)) :
    (primary nested).Gives dialect flow p (Same (some (Expression.table table))) flow q :=
  .quiet quiet_mark fun start _ => .current (.no (not_isSome_of_faces hleft)
    (.unlessConsume (hleft.not_faces (by decide)) (.ifConsume hleft
      ((tableBody_gives hn start h hwellFormed).bind fun _ htable =>
        .give (same_some.mpr (same_tableExpression htable))))))

/-- A structure is read as it is written, behind its keyword. -/
theorem makeBody_gives (start : Place) {type : Identifier} {fields : List MakeField}
    {placement : Placement} (htype : p.Names type) (hleft : p.step.Faces Symbol.leftBrace)
    (hfields : Fields (fun p => p.Faces Symbol.rightBrace) (StructureField inner) fields p.step.step q)
    (hright : q.Faces Symbol.rightBrace)
    (hwellFormed : wellFormedMakeFields (flow.surroundings dialect) fields) :
    (makeBody nested start).Gives dialect flow p (Same (Expression.make type fields placement)) flow
      q.step := by
  have hturns := turned_of_fields (hfields.with (wellFormedMakeFields_iff.mp hwellFormed))
  exact .identifier htype fun _ htype => .expect hleft
    ((Gives.repeatedReads (Pairing.makeTurn_advances hn.advances) (fun _ _ _ => makeTurn_gives hn)
      hturns).bind fun _ hfields => .expect hright (.placedExpression start fun _ =>
        same_make htype hfields))

/-- A structure is read as it is written. -/
theorem makeExpression_gives {type : Identifier} {fields : List MakeField} {placement : Placement}
    (hmake : p.Faces ReservedWord.hmakeWord) (htype : p.step.Names type)
    (hleft : p.step.step.Faces Symbol.leftBrace)
    (hfields : Fields (fun p => p.Faces Symbol.rightBrace) (StructureField inner) fields
      p.step.step.step q) (hright : q.Faces Symbol.rightBrace)
    (hwellFormed : wellFormedMakeFields (flow.surroundings dialect) fields) :
    (primary nested).Gives dialect flow p (Same (some (Expression.make type fields placement))) flow
      q.step :=
  .quiet quiet_mark fun start _ => .current (.no (not_isSome_of_faces hmake)
    (.unlessConsume (hmake.not_faces (by decide)) (.unlessConsume (hmake.not_faces (by decide))
      (.ifConsume hmake ((makeBody_gives hn start htype hleft hfields hright hwellFormed).bind fun _ hv =>
        .give (same_some.mpr hv))))))

/-! ## Suffixes -/

omit hn in
/-- A literal is read as it is written, if it may stand there. -/
theorem literal_gives {literal : Literal} (h : p.Denotes literal)
    (hwellFormed : (Expression.literal literal).WellFormed (flow.surroundings dialect) false) :
    (primary nested).Gives dialect flow p (Same (some (Expression.literal literal))) flow p.step := by
  refine .quiet quiet_mark fun _ _ => .current (.yes ?_ (.read fun total s hs => .no (fun hvararg => ?_)
    (.literal h fun literal' hliteral' => .give (same_some.mpr (same_literalExpression hliteral')))))
  · rw [h.1]
    rfl
  · rw [Bool.and_eq_true_iff, Bool.not_eq_true', hs.jumps.allowsVararg] at hvararg
    obtain ⟨hkind, hvararg⟩ := hvararg
    have hdots : literal.value = .vararg := by
      have hdenotes := h.1
      rw [Token.kind, beq_iff_eq] at hkind
      cases hvalue : p.token.value <;> rw [hvalue] at hkind hdenotes <;> cases hkind
      exact (Option.some.inj hdenotes).symm
    exact Bool.false_ne_true (hvararg.symm.trans (hwellFormed hdots))

/-- The arguments of a call are read as they are written. -/
theorem callArguments_gives {base base' v : Expression} (start : Place) (hbase : Same base base')
    (h : Arguments dialect inner (base, p) (v, q))
    (hwellFormed : v.WellFormed (flow.surroundings dialect) false) :
    (callArguments nested base' start).Gives dialect flow p (Same v) flow q := by
  have hsymbol {symbol : Symbol} (hfaces : p.Faces symbol) (other : Symbol) :
      p.token.isSymbol other = (symbol == other) := by
    rw [Token.isSymbol, show p.token.value = _ from hfaces]
    cases symbol <;> cases other <;> rfl
  refine .current ?_
  cases h with
  | list hleft hline harguments hright =>
    refine .yes (hsymbol hleft _) (.has (.read fun total s hs => .no (fun hambiguous => ?_)
      (.advance hleft.isEnd_eq ((optionalList_gives hn harguments hwellFormed.2).bind
        fun _ harguments => .expect hright (.placedExpression start fun _ =>
          same_call hbase harguments)))))
    rw [Bool.and_eq_true_iff, Bool.not_eq_true', hs.previous] at hambiguous
    exact bne_iff_ne.mp hambiguous.2 (hline hambiguous.1)
  | table hleft htable =>
    refine .no ?_ (.yes (hsymbol hleft _) (.quiet quiet_mark fun tableStart _ => .advance hleft.isEnd_eq
      ((tableBody_gives hn tableStart htable hwellFormed.2).bind fun _ htable =>
        .placedExpression start fun _ => same_tableCall hbase htable)))
    rw [hsymbol hleft]
    decide
  | string hliteral hvalue =>
    have hstring : p.token.value = .string _ := hliteral.value_eq (congrArg some hvalue.symm)
    refine .no ?_ (.no ?_ (.yes ?_ (.literal hliteral fun _ hliteral => .placedExpression start fun _ =>
      same_stringCall hbase hliteral)))
    · exact fun h => TokenValue.noConfusion (hstring.symm.trans (beq_iff_eq.mp h))
    · exact fun h => TokenValue.noConfusion (hstring.symm.trans (beq_iff_eq.mp h))
    · rw [Token.kind, hstring]
      rfl

/-- One suffix is read as it is written. -/
theorem suffix_gives {base base' v : Expression} (start : Place) (hbase : Same base base')
    (h : Suffix dialect inner (base, p) (v, q))
    (hwellFormed : v.WellFormed (flow.surroundings dialect) false) :
    (suffix nested start base').Gives dialect flow p (Same v) flow q := by
  generalize ha : (base, p) = a at h
  generalize hb : (v, q) = b at h
  cases h with
  | index hleft hindex hright =>
    cases ha
    cases hb
    exact .ifConsume hleft ((expression_gives hn hindex hwellFormed.2).bind fun _ hindex =>
      .expect hright (.placedExpression start fun _ => same_index hbase hindex))
  | member hdot hname =>
    cases ha
    cases hb
    exact .unlessConsume (hdot.not_faces (by decide)) (.ifConsume hdot (.identifier hname fun _ hname =>
      .placedExpression start fun _ => same_member hbase .dot hname))
  | method hcolon hname harguments =>
    cases ha
    cases hb
    refine .unlessConsume (hcolon.not_faces (by decide)) (.unlessConsume (hcolon.not_faces (by decide))
      (.ifConsume hcolon (.identifier hname fun _ hname => .quiet (quiet_placedExpression start _) ?_)))
    rintro _ ⟨placement, rfl⟩
    exact callArguments_gives hn start (same_member hbase .colon hname) harguments hwellFormed
  | arguments harguments =>
    cases ha
    cases hb
    obtain ⟨hbracket, hdot, hcolon⟩ := harguments.not_faces
    exact .unlessConsume hbracket (.unlessConsume hdot (.unlessConsume hcolon
      (callArguments_gives hn start hbase harguments hwellFormed)))

/-- Suffixes are read as they are written, as far as they go. -/
theorem suffixes_gives {base base' v : Expression} (start : Place) (hbase : Same base base')
    (hmethod : base.isMethod = false) (h : Suffixes dialect inner (base, p) (v, q))
    (hstop : startsSuffix q.token = false)
    (hwellFormed : v.WellFormed (flow.surroundings dialect) false) :
    (iterated (suffixStep nested start) base').Gives dialect flow p (Same v) flow q := by
  have hstep (base base' : Expression) (p : Point) (v : Option Expression) (q : Point)
      (hbase : Same base base') (hstep : StepRead (fun a b => Suffix dialect inner a b ∧
        b.1.WellFormed (flow.surroundings dialect) false) (fun p => startsSuffix p.token = false)
          base p v q) : (suffixStep nested start base').Gives dialect flow p (Same v) flow q := by
    cases v with
    | none =>
      obtain ⟨rfl, hstop⟩ := hstep
      exact .current (.no (ne_true_of_eq_false hstop) (.give rfl))
    | some v =>
      obtain ⟨hstep, hwellFormed⟩ := hstep
      exact .current (.yes hstep.starts ((suffix_gives hn start hbase hstep hwellFormed).bind fun _ hv =>
        .give (same_some.mpr hv)))
  exact Gives.iterated (Pairing.suffixStep_advances hn.advances start) hstep hbase
    (h.back hmethod hwellFormed).2 hstop

/-- What stands in parentheses is read as it is written. -/
theorem parenthesised_gives {v : Expression} (h : Enclosed inner v p q)
    (hwellFormed : v.WellFormed (flow.surroundings dialect) false) :
    (parenthesised nested).Gives dialect flow p.step (Same v) flow q := by
  obtain ⟨-, hvalue, hright⟩ := h
  exact (expression_gives hn hvalue hwellFormed).bind fun _ hv => .expect hright (.give hv)

/-- Something with all its suffixes, in a rule that looks at what it begins with. -/
theorem suffixed_gives {bare : Bool} {v : Expression} (h : Suffixed dialect inner bare v p q)
    (hwellFormed : v.WellFormed (flow.surroundings dialect) false) :
    (suffixed nested).Gives dialect flow p (Same (some v)) flow q := by
  refine .quiet quiet_mark fun start _ => .current ?_
  cases h with
  | name hname hsuffixes hstop =>
    exact .yes (beq_iff_eq.mpr (kind_of_names hname)) (.resolved hname fun _ hname =>
      (suffixes_gives hn start (same_nameExpression hname) rfl hsuffixes hstop hwellFormed).bind
        fun _ hv => .give (same_some.mpr hv))
  | enclosed henclosed hsuffixes hstop =>
    obtain ⟨hleft, hvalue, hright⟩ := henclosed
    have hmethod := hn.isMethod hvalue
    have hbase := (hsuffixes.back hmethod hwellFormed).1
    refine .no (fun hkind => ?_) (.ifConsume hleft
      ((parenthesised_gives hn (.mk hleft hvalue hright) hbase).bind fun _ hbase =>
        (suffixes_gives hn start hbase hmethod hsuffixes hstop hwellFormed).bind
          fun _ hv => .give (same_some.mpr hv)))
    rw [Token.kind, show p.token.value = _ from hleft] at hkind
    cases hkind

/-! ## Operators -/

omit hn in
/-- An operand without suffixes is one. -/
theorem operand_of_primary {v : Expression}
    (h : (primary nested).Gives dialect flow p (Same (some v)) flow q) :
    (primary nested >>= fun
      | some expression => pure (some expression)
      | none => suffixed nested).Gives dialect flow p (Same (some v)) flow q :=
  h.bind fun found hfound => by
    cases found with
    | none => exact absurd hfound not_same_some_none
    | some => exact .give hfound

omit hn in
/-- Where no operand without suffixes begins, one with suffixes may. -/
theorem operand_of_suffixed {v : Option Expression}
    (hliteral : (literalValue? p.token.value).isSome = false)
    (hfunction : ¬ p.Faces ReservedWord.functionWord) (hbrace : ¬ p.Faces Symbol.leftBrace)
    (hmake : ¬ p.Faces ReservedWord.hmakeWord)
    (h : (suffixed nested).Gives dialect flow p (Same v) flow q) :
    (primary nested >>= fun
      | some expression => pure (some expression)
      | none => suffixed nested).Gives dialect flow p (Same v) flow q :=
  (primary_gives_none hliteral hfunction hbrace hmake).bind fun found hfound => by
    cases found with
    | none => exact h
    | some => exact absurd hfound not_same_none_some

/-- An operand is read as it is written, or found to be missing. -/
theorem operand_gives (start : Place) {v : Option Expression}
    (h : OperandRead dialect inner flow p v q) :
    (operand nested start).Gives dialect flow p (Same v) flow q := by
  have hunary {terminal : Terminal} (h : p.Faces terminal)
      (hnone : UnaryOperator.ofToken? terminal.value = none) :
      UnaryOperator.ofToken? p.token.value = none := by
    rwa [show p.token.value = _ from h]
  refine .current ?_
  cases v with
  | none =>
    obtain ⟨rfl, hstarts⟩ := h
    simp only [Token.startsExpression, Bool.or_eq_false_iff, Option.isSome_eq_false_iff,
      Option.isNone_iff_eq_none] at hstarts
    obtain ⟨⟨⟨⟨⟨⟨hliteral, hunary⟩, hkind⟩, hfunction⟩, hmake⟩, hbrace⟩, hparen⟩ := hstarts
    rw [hunary]
    refine operand_of_suffixed (by rw [hliteral]; rfl) (ne_of_beq_false hfunction)
      (ne_of_beq_false hbrace) (ne_of_beq_false hmake) (.quiet quiet_mark fun _ _ => ?_)
    exact .current (.no (ne_true_of_eq_false hkind) (.unlessConsume (ne_of_beq_false hparen) (.give rfl)))
  | some v =>
    obtain ⟨hoperand, hwellFormed⟩ := h
    cases hoperand with
    | literal hliteral =>
      rw [unary_of_denotes hliteral]
      exact operand_of_primary (literal_gives hliteral hwellFormed)
    | function hfunction hbody =>
      rw [hunary hfunction rfl]
      exact operand_of_primary (functionExpression_gives hn hfunction hbody hwellFormed.2)
    | table hleft htable =>
      rw [hunary hleft rfl]
      exact operand_of_primary (tableExpression_gives hn hleft htable hwellFormed)
    | make hmake htype hleft hfields hright =>
      rw [hunary hmake rfl]
      exact operand_of_primary (makeExpression_gives hn hmake htype hleft hfields hright hwellFormed)
    | suffixed hsuffixed =>
      have hgives := suffixed_gives hn hsuffixed hwellFormed
      rcases hsuffixed.begins with ⟨name, hname⟩ | hleft
      · rw [hname]
        have hfaces {terminal : Terminal} : ¬ p.Faces terminal := by
          rw [Point.Faces, hname]
          cases terminal <;> exact TokenValue.noConfusion
        exact operand_of_suffixed (by rw [hname]; rfl) hfaces hfaces hfaces hgives
      · rw [hunary hleft rfl]
        exact operand_of_suffixed (Bool.eq_false_iff.mpr (not_isSome_of_faces hleft))
          (hleft.not_faces (by decide)) (hleft.not_faces (by decide)) (hleft.not_faces (by decide)) hgives
    | unary hoperator hargument =>
      rw [hoperator]
      have hend : p.token.isEnd = false := Bool.eq_false_iff.mpr fun hend => by
        rw [beq_iff_eq.mp hend] at hoperator
        cases hoperator
      refine .advance hend ((required_gives hn hargument hwellFormed).bind fun _ hargument =>
        .quiet (quiet_placed start) fun _ _ => .quiet (quiet_completed _) ?_)
      rintro _ rfl
      exact .give (same_some.mpr (same_unary _ hargument))

/-- An operator and what stands on its right are read as they are written, if it binds tightly enough. -/
theorem operatorStep_gives (level : Nat) (start : Place) {left left' : Expression} {v : Option Expression}
    (hleft : Same left left') (h : StepRead (fun a b => Joining inner level a b ∧
      b.1.WellFormed (flow.surroundings dialect) false) (NoOperator level) left p v q) :
    (operatorStep nested level start left').Gives dialect flow p (Same v) flow q := by
  refine .current ?_
  cases v with
  | none =>
    obtain ⟨rfl, hstop⟩ := h
    cases hoperator : Operator.ofToken? q.token.value with
    | none => exact .give rfl
    | some operator => exact .yes (hstop operator hoperator) (.give rfl)
  | some v =>
    obtain ⟨hjoining, hwellFormed⟩ := h
    generalize ha : (left, p) = a at hjoining
    generalize hb : (v, q) = b at hjoining
    cases hjoining with
    | @mk operator _ _ _ _ _ hoperator hlevel hright =>
      cases ha
      cases hb
      rw [hoperator]
      have hend : p.token.isEnd = false := Bool.eq_false_iff.mpr fun hend => by
        rw [beq_iff_eq.mp hend] at hoperator
        cases hoperator
      refine .no (Nat.not_le_of_lt hlevel) (.advance hend ((required_gives hn hright ?_).bind
        fun _ hright => .quiet (quiet_placed start) fun _ _ => .quiet (quiet_completed _) ?_))
      · cases operator with
        | logical => exact hwellFormed.2
        | binary => exact hwellFormed.2
      · rintro _ rfl
        exact .give (same_some.mpr (Pairing.same_joined operator hleft hright _ _))

/-- A row of operands on a level is read as it is written. -/
theorem operation_gives {level : Nat} {v : Option Expression}
    (h : ExpressionRead dialect (inner.deeper dialect) level flow p v q) :
    (operation nested level).Gives dialect flow p (Same v) flow q := by
  refine .quiet quiet_mark fun start _ => ?_
  cases v with
  | none =>
    have hread : OperandRead dialect inner flow p none q := h
    refine (operand_gives hn start hread).bind fun found hfound => ?_
    cases found with
    | none => exact .give rfl
    | some => exact absurd hfound not_same_none_some
  | some v =>
    obtain ⟨⟨hfirst, hsteps, hstop⟩, hwellFormed⟩ := h
    obtain ⟨hwellFormed, hsteps⟩ := joinings_back hsteps hwellFormed
    have hread : OperandRead dialect inner flow p (some _) _ := ⟨hfirst, hwellFormed⟩
    refine (operand_gives hn start hread).bind fun found hfound => ?_
    cases found with
    | none => exact absurd hfound not_same_some_none
    | some first =>
      exact (Gives.iterated (Pairing.operatorStep_advances hn.advances level start)
        (fun _ _ _ _ _ => operatorStep_gives hn level start) (same_some.mp hfound) hsteps hstop).bind
          fun _ hv => .give (same_some.mpr hv)

end

end Grammar

end LuaSyntax
