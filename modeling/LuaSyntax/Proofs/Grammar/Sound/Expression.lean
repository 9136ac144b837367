import LuaSyntax.Proofs.Grammar.Sound.Block

/-!
# Expressions, read

What the rules for expressions have read is written as the tree says, and may stand where it stands.
What comes behind an expression does not continue it, since every rule takes all that it can.
-/

namespace LuaSyntax

open Writing

variable {dialect : Dialect} {flow : Flow} {p q : Point}

/-- A method may stand where it is called, and everything else may stand there too. -/
theorem Expression.WellFormed.called {around : Surroundings} {expression : Expression}
    (h : expression.WellFormed around false) : expression.WellFormed around true := by
  cases expression with
  | member => exact ⟨fun _ => rfl, h.2⟩
  | _ => exact h

/-! ## Rows -/

namespace Writing

variable {α : Type} {item : α → Point → Point → Prop} {property : α → Prop} {items : List α}
  {stop : Point → Prop}

/-- What holds of each thing in a row besides how it is written. -/
theorem Commas.both (h : Commas (fun a p q => item a p q ∧ property a) items p q) :
    Commas item items p q ∧ ∀ a ∈ items, property a := by
  induction h with
  | nil hstop => exact ⟨.nil hstop, List.forall_mem_nil _⟩
  | cons hcomma hitem _ ih =>
    exact ⟨.cons hcomma hitem.1 ih.1, List.forall_mem_cons.mpr ⟨hitem.2, ih.2⟩⟩

/-- Items of a row that are written and have a property are written, and have it. -/
theorem Row.both (h : Row (fun a p q => item a p q ∧ property a) items p q) :
    Row item items p q ∧ ∀ a ∈ items, property a := by
  obtain ⟨hitem, hrest⟩ := h
  exact ⟨.mk hitem.1 hrest.both.1, List.forall_mem_cons.mpr ⟨hitem.2, hrest.both.2⟩⟩

/-- Fields that are written and have a property are written, and have it. -/
theorem Fields.both (h : Fields stop (fun a p q => item a p q ∧ property a) items p q) :
    Fields stop item items p q ∧ ∀ a ∈ items, property a := by
  induction h with
  | nil hstop => exact ⟨.nil hstop, List.forall_mem_nil _⟩
  | last hitem hstop => exact ⟨.last hitem.1 hstop, List.forall_mem_singleton.mpr hitem.2⟩
  | more hitem hseparates _ ih =>
    exact ⟨.more hitem.1 hseparates ih.1, List.forall_mem_cons.mpr ⟨hitem.2, ih.2⟩⟩

/-- A step that keeps a property. -/
def Keeping {P : Type} (step : P → P → Prop) (property : P → Prop) (a b : P) : Prop :=
  step a b ∧ (property a → property b)

/-- Steps that keep a property are steps, and lead to something that has it. -/
theorem Keeping.both {P : Type} {step : P → P → Prop} {property : P → Prop} {a b : P}
    (h : Relation.ReflTransGen (Keeping step property) a b) (ha : property a) :
    Relation.ReflTransGen step a b ∧ property b := by
  induction h with
  | refl => exact ⟨.refl, ha⟩
  | tail _ hstep ih => exact ⟨ih.1.tail hstep.1, hstep.2 ih.2⟩

end Writing

namespace Grammar

open Rule

section Rows

variable {α : Type} {item : α → Point → Point → Prop} {items : List α} {stop : Point → Prop}

/-- What has been read if there may be a comma and something behind it. -/
def CommaRead (item : α → Point → Point → Prop) : Option α → Point → Point → Prop
  | none, p, q => ¬ p.Faces Symbol.comma ∧ q = p
  | some value, p, q => p.Faces Symbol.comma ∧ item value p.step q

/-- Items that were read behind commas are written so. -/
theorem Listed.commas (h : Listed (CommaRead item) items p q) : Commas item items p q := by
  induction h with
  | none hitem =>
    obtain ⟨hcomma, rfl⟩ := hitem
    exact .nil hcomma
  | some hitem _ ih => exact .cons hitem.1 hitem.2 ih

/-- What a turn has read that takes a field and a separator behind it. -/
def FieldTurnRead (stop : Point → Prop) (item : α → Point → Point → Prop) :
    Turn α → Point → Point → Prop
  | .stop, p, q => stop p ∧ q = p
  | .last value, p, q => item value p q ∧ ¬ Separates q
  | .more value, p, r => ∃ q, item value p q ∧ Separates q ∧ r = q.step

/-- Turns that were read are written as fields. -/
theorem Turned.fields (h : Turned (FieldTurnRead stop item) items p q) :
    Fields stop item items p q := by
  induction h with
  | stop hturn =>
    obtain ⟨hstop, rfl⟩ := hturn
    exact .nil hstop
  | last hturn => exact .last hturn.1 hturn.2
  | more hturn _ ih =>
    obtain ⟨q, hitem, hseparates, rfl⟩ := hturn
    exact .more hitem hseparates ih

/-- A separator behind a field is taken if there is one. -/
theorem separator_reads {value : α} (h : item value p q) :
    (at? Symbol.comma >>= fun comma => at? Symbol.semicolon >>= fun semicolon =>
      if (comma || semicolon) = true then advance >>= fun _ => pure (.more value)
      else pure (.last value)).Reads dialect flow q fun v r => FieldTurnRead stop item v p r := by
  refine .at? (.at? (.ite (fun hfound => ?_) fun hnone => ?_))
  · rw [Bool.or_eq_true, decide_eq_true_eq, decide_eq_true_eq] at hfound
    exact .advance (hfound.elim (·.isEnd_eq) (·.isEnd_eq)) (.give ⟨rfl, q, h, hfound, rfl⟩)
  · rw [Bool.or_eq_false_iff, decide_eq_false_iff_not, decide_eq_false_iff_not] at hnone
    exact .give ⟨rfl, h, not_or.mpr hnone⟩

end Rows

/-! ## Lists -/

section

variable {nested : Nested} {inner : Writing} (hn : nested.Sound dialect inner)

include hn

/-- An expression that has to be there is written on its level and well-formed. -/
theorem required_reads (level : Nat) :
    (required (nested.expression level)).Reads dialect flow p fun v q =>
      inner.expression level v p q ∧ v.WellFormed (flow.surroundings dialect) false :=
  (hn.expression level flow p).bind fun found q hfound => by
    cases found with
    | none => exact .demand _
    | some expression => exact .give ⟨rfl, hfound⟩

/-- An expression that was read is written and well-formed. -/
theorem expression_reads : (expression nested).Reads dialect flow p fun v q =>
    inner.expression 0 v p q ∧ v.WellFormed (flow.surroundings dialect) false :=
  required_reads hn 0

/-- What was read behind a comma is written there, or there is no comma. -/
theorem commaExpression_reads : (commaExpression nested).Reads dialect flow p fun v q =>
    CommaRead (fun v p q => inner.expression 0 v p q ∧ v.WellFormed (flow.surroundings dialect) false)
      v p q := by
  refine .ifConsume (fun hcomma => ?_) fun hcomma => .give ⟨rfl, hcomma, rfl⟩
  exact (expression_reads hn).bind fun value q hvalue => .give ⟨rfl, hcomma, hvalue⟩

/-- The expressions behind the first are written behind commas. -/
theorem moreExpressions_reads : (many (commaExpression nested)).Reads dialect flow p fun v q =>
    Commas (fun v p q => inner.expression 0 v p q ∧ v.WellFormed (flow.surroundings dialect) false)
      v p q :=
  (Moves.manyReads (commaExpression_advances hn.advances) fun _ => commaExpression_reads hn).mono
    fun _ _ _ h => ⟨h.1, h.2.commas⟩

/-- A list of expressions that was read is written as a row, and well-formed. -/
theorem expressionList_reads : (expressionList nested).Reads dialect flow p fun v q =>
    Row (inner.expression 0) v p q ∧ wellFormedExpressions (flow.surroundings dialect) v := by
  refine (expression_reads hn).bind fun first q hfirst =>
    (moreExpressions_reads hn).bind fun rest r hrest => .give ⟨rfl, ?_⟩
  obtain ⟨hrow, hwellFormed⟩ := (Row.mk hfirst hrest).both
  exact ⟨hrow, wellFormedExpressions_iff.mpr hwellFormed⟩

/-- A list that may be missing is written as a row or missing. -/
theorem optionalList_reads : (optionalList nested).Reads dialect flow p fun v q =>
    OptionalList inner v p q ∧ wellFormedExpressions (flow.surroundings dialect) v := by
  refine (hn.expression 0 flow p).bind fun found q hfound => ?_
  cases found with
  | none =>
    obtain ⟨rfl, hnone⟩ := hfound
    exact .give ⟨rfl, .none hnone, trivial⟩
  | some first =>
    refine (moreExpressions_reads hn).bind fun rest r hrest => .give ⟨rfl, ?_⟩
    obtain ⟨hrow, hwellFormed⟩ := (Row.mk hfound hrest).both
    exact ⟨.some hrow, wellFormedExpressions_iff.mpr hwellFormed⟩

/-! ## Constructors -/

/-- What a field of a table has read that may be missing. -/
def TableFieldRead (dialect : Dialect) (inner : Writing) (flow : Flow) (p : Point) :
    Option TableField → Point → Prop
  | none, q => q = p ∧ inner.absent p ∧ ¬ p.Faces Symbol.leftBracket
  | some field, q => Field inner field p q ∧ field.WellFormed (flow.surroundings dialect)

/-- A field that was read is written, or none begins here. -/
theorem tableField_reads : (tableField nested).Reads dialect flow p fun v q =>
    TableFieldRead dialect inner flow p v q := by
  refine .quiet quiet_mark fun start _ => .ifConsume (fun hleft => ?_) fun hbracket => ?_
  · refine (expression_reads hn).bind fun key q hkey => .expect fun hright => .expect fun hassign =>
      (expression_reads hn).bind fun value r hvalue => .quiet (quiet_placed start) fun _ _ => ?_
    exact .give ⟨rfl, .keyed hleft hkey.1 hright hassign hvalue.1, hkey.2, hvalue.2⟩
  refine .current (.read fun total s hs => .ite (fun hnamed => ?_) fun hpositional => ?_)
  · obtain ⟨-, hassign⟩ := Bool.and_eq_true_iff.mp hnamed
    refine .identifier fun key hkey => ?_
    have hassign : p.step.Faces Symbol.assign := by
      rwa [hs.lookahead, Token.isSymbol, beq_iff_eq] at hassign
    refine .advance hassign.isEnd_eq ((expression_reads hn).bind fun value q hvalue =>
      .quiet (quiet_placed start) fun _ _ => ?_)
    exact .give ⟨rfl, .named hkey hassign hvalue.1, hvalue.2⟩
  · have hnot : ¬ (p.token.kind = .identifier ∧ p.step.Faces Symbol.assign) := by
      rintro ⟨hkind, hassign⟩
      rw [hs.lookahead, hkind, Token.isSymbol, show p.ahead.value = _ from hassign] at hpositional
      exact absurd hpositional (by decide)
    refine (hn.expression 0 flow p).bind fun found q hfound => ?_
    cases found with
    | none => exact .give ⟨rfl, hfound.1, hfound.2, hbracket⟩
    | some value =>
      exact .quiet (quiet_placed start) fun _ _ =>
        .give ⟨rfl, .positional hbracket hnot hfound.1, hfound.2⟩

/-- A turn of a table is written as a field and its separator. -/
theorem tableTurn_reads : (tableTurn nested).Reads dialect flow p fun v q =>
    FieldTurnRead (fun p => inner.absent p ∧ ¬ p.Faces Symbol.leftBracket)
      (fun v p q => Field inner v p q ∧ v.WellFormed (flow.surroundings dialect)) v p q := by
  refine (tableField_reads hn).bind fun found q hfound => ?_
  cases found with
  | none => exact .give ⟨rfl, hfound.2, hfound.1⟩
  | some field => exact .quiet (quiet_complete _) fun _ _ => separator_reads hfound

/-- A table that was read is written up to its brace, and well-formed. -/
theorem tableBody_reads (start : Place) : (tableBody nested start).Reads dialect flow p fun v q =>
    TableBody inner v p q ∧ v.WellFormed (flow.surroundings dialect) := by
  refine (Moves.repeatedReads (Pairing.tableTurn_advances hn.advances) fun _ => tableTurn_reads hn).bind
    fun fields q hfields => .expect fun hright => .quiet (quiet_placed start) fun _ _ =>
      .quiet (quiet_complete _) fun _ _ => ?_
  obtain ⟨hwritten, hwellFormed⟩ := hfields.fields.both
  exact .give ⟨rfl, .mk hwritten hright, wellFormedTableFields_iff.mpr hwellFormed⟩

/-- A turn of a structure is written as a field and its separator. -/
theorem makeTurn_reads : (makeTurn nested).Reads dialect flow p fun v q =>
    FieldTurnRead (fun p => p.Faces Symbol.rightBrace)
      (fun v p q => StructureField inner v p q ∧ v.WellFormed (flow.surroundings dialect)) v p q := by
  refine .ifAt (fun hright => .give ⟨rfl, hright, rfl⟩) fun _ => .quiet quiet_mark fun start _ =>
    .identifier fun key hkey => .expect fun hassign => (expression_reads hn).bind fun value q hvalue =>
      .quiet (quiet_placed start) fun _ _ => .quiet (quiet_complete _) fun _ _ => ?_
  exact separator_reads ⟨.mk hkey hassign hvalue.1, hvalue.2⟩

/-- A structure that was read is written behind its keyword, and well-formed. -/
theorem makeBody_reads (start : Place) (h : p.Faces ReservedWord.hmakeWord) :
    (makeBody nested start).Reads dialect flow p.step fun v q =>
      Operand dialect inner v p q ∧ v.WellFormed (flow.surroundings dialect) false := by
  refine .identifier fun type htype => .expect fun hleft =>
    (Moves.repeatedReads (Pairing.makeTurn_advances hn.advances) fun _ => makeTurn_reads hn).bind
      fun fields q hfields => .expect fun hright => ?_
  obtain ⟨hwritten, hwellFormed⟩ := hfields.fields.both
  exact .placedExpression start fun placement =>
    ⟨rfl, .make h htype hleft hwritten hright, wellFormedMakeFields_iff.mpr hwellFormed⟩

/-- What an operand has read that takes no suffix and may be missing. -/
def PrimaryRead (dialect : Dialect) (inner : Writing) (flow : Flow) (p : Point) :
    Option Expression → Point → Prop
  | none, q => q = p ∧ (literalValue? p.token.value).isSome = false ∧
    ¬ p.Faces ReservedWord.functionWord ∧ ¬ p.Faces Symbol.leftBrace ∧ ¬ p.Faces ReservedWord.hmakeWord
  | some expression, q => Operand dialect inner expression p q ∧
    expression.WellFormed (flow.surroundings dialect) false

/-- A primary expression that was read is written, or none begins here. -/
theorem primary_reads : (primary nested).Reads dialect flow p fun v q =>
    PrimaryRead dialect inner flow p v q := by
  refine .quiet quiet_mark fun start _ => .current (.ite (fun _ => .read fun total s hs =>
    .ite (fun _ => .blame _ _ _) fun hvararg => .literal fun literal hliteral => ?_) fun hnone => ?_)
  · refine .give ⟨rfl, .literal hliteral, fun hdots => ?_⟩
    have htoken : p.token.value = .vararg := by
      have hvalue := hliteral.1
      rw [hdots] at hvalue
      cases h : p.token.value <;> rw [h] at hvalue <;> first | rfl | cases hvalue
    rw [Token.kind, htoken, hs.jumps.allowsVararg] at hvararg
    cases h : flow.allowsVararg with
    | false => simp [h, TokenValue.kind] at hvararg
    | true => exact h
  refine .ifConsume (fun hfunction => ?_) fun hfunction => .ifConsume (fun hleft => ?_) fun hleft =>
    .ifConsume (fun hmake => ?_) fun hmake => .give ⟨rfl, rfl, ?_, hfunction, hleft, hmake⟩
  · refine (functionBody_reads hn none false false start).bind fun function q hread => ?_
    obtain ⟨⟨parameters, body, placement, rfl⟩, hwritten, hwellFormed⟩ := hread
    refine .quiet (quiet_completed _) ?_
    rintro _ rfl
    exact .give ⟨rfl, .function hfunction hwritten, ⟨rfl, rfl⟩, hwellFormed⟩
  · exact (tableBody_reads hn start).bind fun table q htable =>
      .give ⟨rfl, .table hleft htable.1, htable.2⟩
  · exact (makeBody_reads hn start hmake).bind fun expression q hread => .give ⟨rfl, hread⟩
  · exact hnone

/-! ## Suffixes -/

/-- What arguments make of something that may be called there. -/
theorem callArguments_reads (base : Expression) (start : Place) :
    (callArguments nested base start).Reads dialect flow p fun v q =>
      Arguments dialect inner (base, p) (v, q) ∧ (base.WellFormed (flow.surroundings dialect) true →
        v.WellFormed (flow.surroundings dialect) false) := by
  refine .current (.ite (fun hleft => .has (.read fun total s hs => .ite (fun _ => .blame _ _ _)
    fun hline => ?_)) fun _ => .ite (fun hleft => ?_) fun _ => .ite (fun _ => ?_) fun _ => .demand _)
  · have hleft : p.Faces Symbol.leftParen := beq_iff_eq.mp hleft
    have hline : dialect.has .flexibleLineEnd = false →
        p.token.start.line = p.previous.stop.line := fun hflexible => by
      rw [hflexible, hs.previous] at hline
      simpa using hline
    refine .advance hleft.isEnd_eq ((optionalList_reads hn).bind fun arguments q hread =>
      .expect fun hright => ?_)
    exact .placedExpression start fun placement =>
      ⟨rfl, .list hleft hline hread.1 hright, fun hbase => ⟨hbase, hread.2⟩⟩
  · have hleft : p.Faces Symbol.leftBrace := beq_iff_eq.mp hleft
    refine .quiet quiet_mark fun tableStart _ => .advance hleft.isEnd_eq
      ((tableBody_reads hn tableStart).bind fun table q hread => ?_)
    exact .placedExpression start fun placement =>
      ⟨rfl, .table hleft hread.1, fun hbase => ⟨hbase, hread.2⟩⟩
  · next hkind =>
    refine .literal fun literal hliteral => ?_
    obtain ⟨value, hvalue⟩ : ∃ value, literal.value = .string value := by
      have hvalue := hliteral.1
      rw [Token.kind, beq_iff_eq] at hkind
      cases h : p.token.value <;> rw [h] at hkind hvalue <;> first
        | exact ⟨_, (Option.some.inj hvalue).symm⟩
        | cases hkind
    exact .placedExpression start fun placement =>
      ⟨rfl, .string hliteral hvalue, fun hbase => ⟨hbase, value, hvalue⟩⟩

/-- What a suffix makes of something. -/
def SuffixRead (dialect : Dialect) (inner : Writing) (flow : Flow) :
    Expression × Point → Expression × Point → Prop :=
  Keeping (Suffix dialect inner) fun a => a.1.WellFormed (flow.surroundings dialect) false

/-- A suffix that was read is written behind its base. -/
theorem suffix_reads (start : Place) (base : Expression) :
    (suffix nested start base).Reads dialect flow p fun v q =>
      SuffixRead dialect inner flow (base, p) (v, q) := by
  refine .ifConsume (fun hleft => ?_) fun _ => .ifConsume (fun hdot => ?_) fun _ =>
    .ifConsume (fun hcolon => ?_) fun _ => ?_
  · refine (expression_reads hn).bind fun index q hindex => .expect fun hright => ?_
    exact .placedExpression start fun placement =>
      ⟨rfl, .index hleft hindex.1 hright, fun hbase => ⟨hbase, hindex.2⟩⟩
  · refine .identifier fun name hname => ?_
    exact .placedExpression start fun placement =>
      ⟨rfl, .member hdot hname, fun hbase => ⟨nofun, hbase⟩⟩
  · refine .identifier fun name hname => .quiet (quiet_placedExpression start _) ?_
    rintro _ ⟨placement, rfl⟩
    refine (callArguments_reads hn _ start).mono fun v _ q ⟨hflow, hwritten, hwellFormed⟩ =>
      ⟨hflow, .method hcolon hname hwritten, fun hbase => hwellFormed ⟨fun _ => rfl, hbase⟩⟩
  · exact (callArguments_reads hn base start).mono fun v _ q ⟨hflow, hwritten, hwellFormed⟩ =>
      ⟨hflow, .arguments hwritten, fun hbase => hwellFormed hbase.called⟩

/-- All suffixes of something. -/
theorem suffixes_reads (start : Place) {base : Expression}
    (hbase : base.WellFormed (flow.surroundings dialect) false) :
    (iterated (suffixStep nested start) base).Reads dialect flow p fun v q =>
      Suffixes dialect inner (base, p) (v, q) ∧ startsSuffix q.token = false ∧
        v.WellFormed (flow.surroundings dialect) false := by
  have hstep (base : Expression) (p : Point) :
      (suffixStep nested start base).Reads dialect flow p fun v q =>
        StepRead (SuffixRead dialect inner flow) (fun p => startsSuffix p.token = false) base p v q :=
    .current (.ite (fun _ => (suffix_reads hn start base).bind fun v q hread => .give ⟨rfl, hread⟩)
      fun hstop => .give ⟨rfl, rfl, hstop⟩)
  refine (Moves.iterated (Pairing.suffixStep_advances hn.advances start) hstep).mono
    fun v _ q ⟨hflow, hsteps, hstop⟩ => ?_
  obtain ⟨hwritten, hwellFormed⟩ := Keeping.both hsteps hbase
  exact ⟨hflow, hwritten, hstop, hwellFormed⟩

/-- What was read in parentheses is written in them. -/
theorem parenthesised_reads (h : p.Faces Symbol.leftParen) :
    (parenthesised nested).Reads dialect flow p.step fun v q =>
      Enclosed inner v p q ∧ v.WellFormed (flow.surroundings dialect) false :=
  (expression_reads hn).bind fun _ _ hvalue => .expect fun hright =>
    .give ⟨rfl, .mk h hvalue.1 hright, hvalue.2⟩

/-- What an operand has read that takes suffixes and may be missing. -/
def SuffixedRead (dialect : Dialect) (inner : Writing) (flow : Flow) (p : Point) :
    Option Expression → Point → Prop
  | none, q => q = p ∧ p.token.kind ≠ .identifier ∧ ¬ p.Faces Symbol.leftParen
  | some expression, q => (∃ bare, Suffixed dialect inner bare expression p q) ∧
    expression.WellFormed (flow.surroundings dialect) false

/-- Something with suffixes that was read is written, or none begins here. -/
theorem suffixed_reads : (suffixed nested).Reads dialect flow p fun v q =>
    SuffixedRead dialect inner flow p v q := by
  refine .quiet quiet_mark fun start _ => .current (.ite (fun _ => ?_) fun hkind => ?_)
  · refine .resolved fun name hname => ?_
    have hbase : (Expression.identifier name).WellFormed (flow.surroundings dialect) false := trivial
    refine (suffixes_reads hn start hbase).bind fun v q hread => ?_
    exact .give ⟨rfl, ⟨false, .name hname hread.1 hread.2.1⟩, hread.2.2⟩
  refine .ifConsume (fun hleft => ?_) fun hleft => .give ⟨rfl, rfl, ?_, hleft⟩
  · refine (parenthesised_reads hn hleft).bind fun base q hbase =>
      (suffixes_reads hn start hbase.2).bind fun v r hread => ?_
    exact .give ⟨rfl, ⟨_, .enclosed hbase.1 hread.1 hread.2.1⟩, hread.2.2⟩
  · exact fun h => Bool.false_ne_true (hkind.symm.trans (beq_iff_eq.mpr h))

/-! ## Operators -/

/-- What an operand has read that may be missing. -/
def OperandRead (dialect : Dialect) (inner : Writing) (flow : Flow) (p : Point) :
    Option Expression → Point → Prop
  | none, q => q = p ∧ p.token.startsExpression = false
  | some expression, q => Operand dialect inner expression p q ∧
    expression.WellFormed (flow.surroundings dialect) false

/-- An operand that was read is written, or none begins here. -/
theorem operand_reads (start : Place) : (operand nested start).Reads dialect flow p fun v q =>
    OperandRead dialect inner flow p v q := by
  refine .current ?_
  cases hoperator : UnaryOperator.ofToken? p.token.value with
  | some operator =>
    have hend : p.token.isEnd = false := Bool.eq_false_iff.mpr fun hend => by
      rw [Token.isEnd, beq_iff_eq] at hend
      rw [hend] at hoperator
      cases hoperator
    refine .advance hend ((required_reads hn _).bind fun argument q hread => ?_)
    rw [← bind_assoc]
    refine .quiet (quiet_placedExpression start _) ?_
    rintro _ ⟨placement, rfl⟩
    exact .give ⟨rfl, .unary hoperator hread.1, hread.2⟩
  | none =>
    refine (primary_reads hn).bind fun found q hfound => ?_
    cases found with
    | some expression => exact .give ⟨rfl, hfound⟩
    | none =>
      obtain ⟨rfl, hliteral, hfunction, hbrace, hmake⟩ := hfound
      refine (suffixed_reads hn).mono fun v _ q hsuffixed => ⟨hsuffixed.1, ?_⟩
      have hread := hsuffixed.2
      cases v with
      | some expression =>
        obtain ⟨⟨bare, hwritten⟩, hwellFormed⟩ := hread
        exact ⟨.suffixed hwritten, hwellFormed⟩
      | none =>
        obtain ⟨hq, hkind, hparen⟩ := hread
        refine ⟨hq, ?_⟩
        simp only [Token.startsExpression, hliteral, hoperator, Option.isSome_none, Bool.false_or,
          Bool.or_eq_false_iff]
        exact ⟨⟨⟨⟨beq_false_of_ne hkind, beq_false_of_ne hfunction⟩, beq_false_of_ne hmake⟩,
          beq_false_of_ne hbrace⟩, beq_false_of_ne hparen⟩

/-- What an operator makes of something with its right operand. -/
def JoiningRead (dialect : Dialect) (inner : Writing) (flow : Flow) (level : Nat) :
    Expression × Point → Expression × Point → Prop :=
  Keeping (Joining inner level) fun a => a.1.WellFormed (flow.surroundings dialect) false

/-- No operator behind a point goes on with an expression of some level. -/
def NoOperator (level : Nat) (p : Point) : Prop :=
  ∀ operator, Operator.ofToken? p.token.value = some operator → operator.level ≤ level

/-- A step over an operator is written as one that binds tightly enough, or none stands here. -/
theorem operatorStep_reads (level : Nat) (start : Place) (left : Expression) :
    (operatorStep nested level start left).Reads dialect flow p fun v q =>
      StepRead (JoiningRead dialect inner flow level) (NoOperator level) left p v q := by
  refine .current ?_
  cases hoperator : Operator.ofToken? p.token.value with
  | none => exact .give ⟨rfl, rfl, fun operator h => by rw [hoperator] at h; cases h⟩
  | some operator =>
    refine .choose (fun hlevel => .give ⟨rfl, rfl, fun other h => ?_⟩) fun hlevel => ?_
    · rw [hoperator, Option.some.injEq] at h
      exact h ▸ hlevel
    have hend : p.token.isEnd = false := Bool.eq_false_iff.mpr fun hend => by
      rw [Token.isEnd, beq_iff_eq] at hend
      rw [hend] at hoperator
      cases hoperator
    refine .advance hend ((required_reads hn _).bind fun right q hread => ?_)
    rw [← bind_assoc]
    refine .quiet (quiet_placedExpression start _) ?_
    rintro _ ⟨placement, rfl⟩
    refine .give ⟨rfl, .mk hoperator (Nat.lt_of_not_le hlevel) hread.1, fun hleft => ?_⟩
    cases operator with
    | logical known => exact ⟨hleft, hread.2⟩
    | binary known => exact ⟨hleft, hread.2⟩

/-- A row of operands that was read is written on its level, or none begins here. -/
theorem operation_reads (level : Nat) : (operation nested level).Reads dialect flow p fun v q =>
    ExpressionRead dialect (inner.deeper dialect) level flow p v q := by
  refine .quiet quiet_mark fun start _ => (operand_reads hn start).bind fun found q hfound => ?_
  cases found with
  | none => exact .give ⟨rfl, hfound⟩
  | some first =>
    refine (Moves.iterated (Pairing.operatorStep_advances hn.advances level start)
      fun left p => operatorStep_reads hn level start left).bind fun expression r hread => ?_
    obtain ⟨hwritten, hwellFormed⟩ := Keeping.both hread.1 hfound.2
    exact .give ⟨rfl, .mk hfound.1 hwritten hread.2, hwellFormed⟩

end

end Grammar

end LuaSyntax
