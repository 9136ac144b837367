import LuaSyntax.Proofs.Grammar.Depth.Levels
import LuaSyntax.Proofs.Grammar.Complete.Chunk
import LuaSyntax.Proofs.Grammar.Twins.Chunk
import LuaSyntax.Proofs.Writing.Ranked

/-!
# Precedence

A row of operands is read as the one tree that has its tokens in order and in which operators stand over one
another as their ranks ask. The row stands in an assignment, so that it has to be read as one expression and
nothing else.
-/

namespace LuaSyntax

open Writing
open Grammar (joined)

variable {row : List Token} {e e' : Expression}

/-! ## Trees that are the same -/

section

variable {operator : Operator} {left right : Expression} {placement : Placement}

/-- Annotations do not change the rank of an expression. -/
theorem Expression.rank_erase (erasure : Erasure) (e : Expression) : (e.erase erasure).rank = e.rank := by
  cases e <;> rfl

/-- Annotations do not make an expression prefixed. -/
theorem Expression.isUnary_erase (erasure : Erasure) (e : Expression) :
    (e.erase erasure).isUnary = e.isUnary := by
  cases e <;> rfl

/-- Annotations do not decide what may stand behind a prefix operator. -/
theorem Expression.fitsUnary_erase (erasure : Erasure) (e : Expression) :
    (e.erase erasure).FitsUnary = e.FitsUnary := by
  cases e with
  | binary operator => cases operator <;> rfl
  | _ => rfl

/-- What is the same as a prefixed expression is prefixed by the same operator. -/
theorem Expression.of_same_unary {operator : UnaryOperator} (h : Same (.unary operator e placement) e') :
    ∃ argument placement', e' = .unary operator argument placement' ∧ Same e argument := by
  cases e' with
  | unary operator' argument placement' =>
    injection h with hoperator hargument
    exact ⟨argument, placement', by rw [hoperator], hargument⟩
  | _ => cases h

/-- What is the same as joined operands is joined by the same operator. -/
theorem Expression.of_same_joined (h : Same (joined operator left right placement) e') :
    ∃ left' right' placement', e' = joined operator left' right' placement' ∧ Same left left' ∧
      Same right right' := by
  cases operator with
  | logical operator =>
    cases e' with
    | logical operator' left' right' placement' =>
      injection h with hoperator hleft hright
      exact ⟨left', right', placement', by rw [hoperator]; rfl, hleft, hright⟩
    | _ => cases h
  | binary operator =>
    cases e' with
    | binary operator' left' right' placement' =>
      injection h with hoperator hleft hright
      exact ⟨left', right', placement', by rw [hoperator]; rfl, hleft, hright⟩
    | _ => cases h

/-- What is in no token makes no difference to ranks. -/
theorem Expression.Ranks.of_same (h : e.Ranks row) (hsame : Same e e') : e'.Ranks row := by
  induction h generalizing e' with
  | @name name _ hname =>
    cases e' with
    | identifier name' =>
      injection hsame with hidentifier
      have hspelled : name.name = name'.name := (congrArg Identifier.name hidentifier :)
      exact .name (hspelled ▸ hname)
    | _ => cases hsame
  | @literal leaf _ hvalue hraw =>
    cases e' with
    | literal leaf' =>
      injection hsame with hliteral
      have hvalues : leaf.value = leaf'.value := (congrArg Literal.value hliteral :)
      have hraws : leaf.raw = leaf'.raw := (congrArg Literal.raw hliteral :)
      exact .literal (hvalues ▸ hvalue) (hraws ▸ hraw)
    | _ => cases hsame
  | unary hoperator _ hfits ih =>
    obtain ⟨argument, placement', rfl, hargument⟩ := of_same_unary hsame
    have hkept := hargument.map_eq FitsUnary (fitsUnary_erase .annotations)
    exact .unary hoperator (ih hargument) (hkept ▸ hfits)
  | operation hoperator _ _ hfitsLeft hfitsRight ihleft ihright =>
    obtain ⟨left', right', placement', rfl, hleft, hright⟩ := of_same_joined hsame
    have hrankLeft := hleft.map_eq rank (rank_erase .annotations)
    have hrankRight := hright.map_eq rank (rank_erase .annotations)
    have hunary := hright.map_eq isUnary (isUnary_erase .annotations)
    refine .operation hoperator (ihleft hleft) (ihright hright) ?_ ?_
    · rwa [Operator.FitsLeft, ← hrankLeft]
    · rwa [Operator.FitsRight, ← hrankRight, ← hunary]

end

/-! ## Assignments -/

/-- The chunk that assigns a value to a name. -/
def Chunk.assigning (name : Identifier) (value : Expression) : Chunk :=
  { body := .mk [.assignment [.identifier name] [value] .none] none
    comments := none
    globals := none
    placement := .none }

variable {dialect : Dialect} {name : Identifier} {p q : Point}

/-- An assignment of a row is written with the row behind the name and the equals sign. -/
theorem Expression.Ranks.assigning (h : e.Ranks row) {depth : Nat} (hdepth : row.length ≤ depth)
    (hname : p.Names name) (hassign : p.step.Faces Symbol.assign) (hrow : p.step.step.Spans row q)
    (hend : q.token.isEnd = true) : (Chunk.assigning name e).Written dialect (depth + 2) p q := by
  have hnoComma : ¬ q.Faces Symbol.comma := fun hfaces => by
    rw [hfaces.isEnd_eq] at hend
    cases hend
  have hnoSemicolon : ¬ q.Faces Symbol.semicolon := fun hfaces => by
    rw [hfaces.isEnd_eq] at hend
    cases hend
  have hvalue : p.step.token.value = .punctuator .assign := hassign
  have hgoto : ¬ p.FacesContextualGoto dialect := by
    rintro ⟨-, -, hkind⟩
    rw [← Point.token_step, Token.kind, hvalue] at hkind
    cases hkind
  have hstop : Grammar.startsSuffix p.step.token = false := by
    rw [Grammar.startsSuffix, hvalue]
  have htarget : Row (Target dialect (.ofDepth dialect (depth + 1))) [.identifier name] p p.step :=
    .mk (.mk (.name hname .refl hstop) rfl) (.nil (hassign.not_faces (by decide)))
  have hvalues : Row ((Writing.ofDepth dialect (depth + 1)).expression 0) [e] p.step.step q :=
    .mk (h.operation_of_end hdepth hrow hend) (.nil hnoComma)
  have hstatement : OptionalStatement dialect (.ofDepth dialect (depth + 1))
      (some (.assignment [.identifier name] [e] .none)) p q :=
    .proper (.assignment hgoto htarget hassign hvalues)
  have hbegin : Grammar.endsBlock p.token = false := by
    obtain ⟨spelling, hspelled⟩ := Token.value_of_kind (Token.kind_of_name hname)
    rw [Grammar.endsBlock, hspelled]
  have hdone : Grammar.endsBlock q.token = true := by
    rw [Grammar.endsBlock, beq_iff_eq.mp hend]
  have hrest : Statements dialect (.ofDepth dialect (depth + 2)) [] (q.skip Symbol.semicolon) q := by
    rw [Point.skip_of_not_faces hnoSemicolon]
    exact .nil hdone
  have hstatements := Statements.more hbegin hname.not_faces (fun hbreak => hname.not_faces hbreak.1)
    hstatement hrest
  exact ⟨hstatements, hend⟩

/-- An assignment of a ranked tree to a name is a well-formed chunk. -/
theorem Expression.Ranks.wellFormed_assigning (h : e.Ranks row) (name : Identifier) (dialect : Dialect)
    (checksTargets : Bool) : (Chunk.assigning name e).WellFormed dialect checksTargets := by
  have horderly : Orderly [] false [.assignment [.identifier name] [e] .none] := by
    refine ⟨List.nodup_nil, fun before source between label placement after heq => ?_⟩
    have hlength := congrArg List.length heq
    simp only [List.length_append, List.length_cons, List.length_nil] at hlength
    omega
  have hassignment : (Statement.assignment [.identifier name] [e] .none).WellFormed
      { dialect, checksTargets, allowsVararg := true, inLoop := false, visible := [] } := by
    refine ⟨List.cons_ne_nil _ _, List.cons_ne_nil _ _, ?_, ⟨trivial, trivial⟩, h.wellFormed rfl, trivial⟩
    exact List.forall_mem_singleton.mpr rfl
  exact ⟨⟨fun _ => horderly, List.forall_mem_nil _, hassignment, trivial⟩, fun _ _ => rfl⟩

/-! ## Reading rows -/

namespace Grammar

variable {options : ParseOptions} {source : Text} {deliveries : List Delivery} {last : Delivery}
  {first assign : Token}

/-- With two levels more than a row has tokens, the tree of the row is read. -/
theorem chunk_ranked (hlast : last.token.isEnd = true)
    (htokens : deliveries.map Delivery.token = first :: assign :: row) (hname : first.name? = some name.name)
    (hassign : assign.value = .punctuator .assign) (h : e.Ranks row) {limit : Nat}
    (hlimit : row.length + 2 ≤ limit) :
    ∃ value, (chunkOver (levels limit) (.ofFeed options source ⟨deliveries, .ok last⟩)
      (.initial options ⟨deliveries, .ok last⟩)).1 = .ok value ∧ Same (Chunk.assigning name e) value := by
  have hrow : (Point.before (first :: assign :: row) last.token hlast).step.step.rest = row ++ [] :=
    (List.append_nil row).symm
  obtain ⟨q, hspans, hrest, hq⟩ := Point.spans_of_rest hrow
  have hend : q.token.isEnd = true := by
    rw [Point.token, hrest, List.headD_nil, hq]
    exact hlast
  have hwritten : (Chunk.assigning name e).Written options.dialect limit
      (.before (deliveries.map Delivery.token) last.token hlast) q := by
    obtain ⟨depth, rfl⟩ := Nat.exists_eq_add_of_le hlimit
    rw [htokens, Nat.add_right_comm]
    exact h.assigning (Nat.le_add_right _ _) hname hassign hspans hend
  exact chunk_gives hlast hwritten (h.wellFormed_assigning name _ _)

/-- What is the same as an assignment of one value to a name. -/
theorem assigns_of_same {chunk : Chunk} (h : Same (Chunk.assigning name e) chunk) :
    ∃ target value placement,
      chunk.body.statements = [.assignment [.identifier target] [value] placement] ∧
        target.name = name.name ∧ Same e value := by
  obtain ⟨⟨statements, scope⟩, comments, globals, placement⟩ := chunk
  injection h with hbody
  injection hbody with hstatements
  rw [eraseStatements_eq, eraseStatements_eq] at hstatements
  obtain ⟨statement, rfl, hstatement⟩ := Same.singleton hstatements
  cases statement with
  | assignment targets values placement =>
    injection hstatement with htargets hvalues
    rw [eraseExpressions_eq, eraseExpressions_eq] at htargets hvalues
    obtain ⟨target, rfl, htarget⟩ := Same.singleton htargets
    obtain ⟨value, rfl, hvalue⟩ := Same.singleton hvalues
    cases target with
    | identifier target =>
      injection htarget with htarget
      exact ⟨target, value, placement, rfl, (congrArg Identifier.name htarget.symm :), hvalue⟩
    | _ => cases htarget
  | _ => cases hstatement

/-- In an assignment a row of operands is read as the only tree that has its tokens in order and in which
operators stand over one another as their ranks ask, unless it nests too deep, which it can only if it has
nearly as many tokens as there are levels. -/
theorem row_ranked (options : ParseOptions) (source : Text) {deliveries : List Delivery} {last : Delivery}
    {first assign : Token} {row : List Token} (hlast : last.token.isEnd = true)
    (htokens : deliveries.map Delivery.token = first :: assign :: row) (hfirst : first.kind = .identifier)
    (hassign : assign.value = .punctuator .assign) (hrow : OperandRow row) :
    (nestingLimit < row.length + 2 ∧
      ∃ error, (run options source ⟨deliveries, .ok last⟩).result = .error error ∧
        error.message = .tooManyLevels) ∨
    ∃ chunk target value placement, (run options source ⟨deliveries, .ok last⟩).result = .ok chunk ∧
      chunk.body.statements = [.assignment [.identifier target] [value] placement] ∧
      first.name? = some target.name ∧ value.Ranks row ∧
      ∀ other : Expression, other.Ranks row → Same value other := by
  obtain ⟨spelling, hspelled⟩ := Token.value_of_kind hfirst
  have hname : first.name? = some (Identifier.mk spelling false .none).name := by
    rw [Token.name?, hspelled]
  by_cases hread : ∀ e : Expression, e.Ranks row →
      ∃ value, (run options source ⟨deliveries, .ok last⟩).result = .ok value ∧
        Same (Chunk.assigning ⟨spelling, false, .none⟩ e) value
  · right
    obtain ⟨e, he⟩ := hrow.ranks
    obtain ⟨chunk, hrun, hassigned⟩ := hread e he
    obtain ⟨target, value, placement, hstatements, htarget, hvalue⟩ := assigns_of_same hassigned
    refine ⟨chunk, target, value, placement, hrun, hstatements, ?_, he.of_same hvalue, fun other hother => ?_⟩
    · rw [hname, htarget]
    · obtain ⟨chunk', hrun', hassigned'⟩ := hread other hother
      cases hrun.symm.trans hrun'
      obtain ⟨_, _, _, hstatements', -, hvalue'⟩ := assigns_of_same hassigned'
      cases hstatements.symm.trans hstatements'
      exact hvalue'.symm
  · left
    constructor
    · by_contra hshort
      refine hread fun e he => ?_
      rw [result_run]
      exact chunk_ranked hlast htokens hname hassign he (Nat.le_of_not_lt hshort)
    · rw [result_run] at hread ⊢
      refine (chunk_deeper options source ⟨deliveries, .ok last⟩ nestingLimit (row.length + 2)).resolve_right
        fun hsame => hread fun e he => ?_
      obtain ⟨value, hvalue, hassigned⟩ := chunk_ranked hlast htokens hname hassign he
        (Nat.le_add_left (row.length + 2) nestingLimit)
      exact ⟨value, hsame.symm.trans hvalue, hassigned⟩

/-- The tokens of `a + -b ^ c .. nil`. -/
def signedRow : List Token :=
  [⟨.identifier "a", .start, .start, "a"⟩, ⟨.punctuator .plus, .start, .start, "+"⟩,
    ⟨.punctuator .minus, .start, .start, "-"⟩, ⟨.identifier "b", .start, .start, "b"⟩,
    ⟨.punctuator .caret, .start, .start, "^"⟩, ⟨.identifier "c", .start, .start, "c"⟩,
    ⟨.punctuator .doubleDot, .start, .start, ".."⟩, ⟨.nil, .start, .start, "nil"⟩]

/-- A sign before a power negates the power, and a sum is taken before it is put into a text. -/
theorem row_ranked_sign : ∃ chunk target value placement, (run {} [] (.ofTokens
      (⟨.identifier "x", .start, .start, "x"⟩ :: ⟨.punctuator .assign, .start, .start, "="⟩ :: signedRow)
      (.endOfInput .start))).result = .ok chunk ∧
    chunk.body.statements = [.assignment [.identifier target] [value] placement] ∧
    Same value (.binary .concat
      (.binary .add (.identifier ⟨"a", false, .none⟩)
        (.unary .negate
          (.binary .power (.identifier ⟨"b", false, .none⟩) (.identifier ⟨"c", false, .none⟩) .none) .none)
        .none)
      (.literal ⟨.nil, "nil", .none⟩) .none) := by
  have hrow : OperandRow signedRow :=
    .joined (.inl rfl) rfl (.prefixed rfl (.joined (.inl rfl) rfl (.joined (.inl rfl) rfl (.atom (.inr rfl)))))
  have hpower := @Expression.Ranks.operation (.binary .power) ⟨.punctuator .caret, .start, .start, "^"⟩
    (.identifier ⟨"b", false, .none⟩) (.identifier ⟨"c", false, .none⟩) .none
    [⟨.identifier "b", .start, .start, "b"⟩] [⟨.identifier "c", .start, .start, "c"⟩] rfl (.name rfl) (.name rfl)
    (by decide) (by decide)
  have hsum := @Expression.Ranks.operation (.binary .add) ⟨.punctuator .plus, .start, .start, "+"⟩
    (.identifier ⟨"a", false, .none⟩) _ .none [⟨.identifier "a", .start, .start, "a"⟩] _ rfl (.name rfl)
    (@Expression.Ranks.unary .negate ⟨.punctuator .minus, .start, .start, "-"⟩ _ .none _ rfl hpower trivial)
    (by decide) (by decide)
  have htree := @Expression.Ranks.operation (.binary .concat) ⟨.punctuator .doubleDot, .start, .start, ".."⟩ _
    (.literal ⟨.nil, "nil", .none⟩) .none _ [⟨.nil, .start, .start, "nil"⟩] rfl hsum (.literal rfl rfl)
    (by decide) (by decide)
  have hranked := @row_ranked {} []
    ({ token := ⟨.identifier "x", .start, .start, "x"⟩ } ::
      { token := ⟨.punctuator .assign, .start, .start, "="⟩ } :: signedRow.map fun token => { token })
    { token := .endOfInput .start } _ _ _ rfl rfl rfl rfl hrow
  obtain ⟨hlong, -⟩ | ⟨chunk, target, value, placement, hrun, hstatements, -, -, hunique⟩ := hranked
  · exact absurd hlong (by decide)
  · exact ⟨chunk, target, value, placement, hrun, hstatements, hunique _ htree⟩

end Grammar

end LuaSyntax
