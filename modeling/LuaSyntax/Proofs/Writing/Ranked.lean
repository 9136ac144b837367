import LuaSyntax.Proofs.Grammar.Nodes
import LuaSyntax.Proofs.Writing.Statement
import LuaSyntax.Proofs.Tree.WellFormed

/-!
# Rows of operands

A row of operands is names and literals with operators between them, and operators before any of them. It says
nothing of which operator takes which operands; that is settled by ranks. `Expression.Ranks` says that a tree
has the tokens of a row in their order and that its operators stand over one another as their ranks ask.

Every row has such a tree, which is built from the right: what stands before a row is put in on the left edge
of the row's tree, as far down as its operator binds more tightly than those on the edge. And such a tree is
written with its row, so the grammar reads it.

It is written with the row wherever what stands behind the row takes nothing away from the tree: the end of
the input, or an operator that may have the tree for its left operand. The left edge of the tree is the chain of
operators that are joined one after another, and every right operand is an expression of its own, as far as its
operators bind more tightly than the level that its operator sets. A row needs no deeper nesting than it has
tokens.
-/

namespace LuaSyntax

open Grammar (joined literalValue?)

/-! ## Ranks -/

/-- How tightly an operator binds that stands between operands. -/
def Operator.rank : Operator → Nat
  | .logical .or => 1
  | .logical .and => 2
  | .binary .less | .binary .greater | .binary .lessEqual | .binary .greaterEqual | .binary .notEqual
  | .binary .equal => 3
  | .binary .bitOr => 4
  | .binary .bitXor => 5
  | .binary .bitAnd => 6
  | .binary .shiftLeft | .binary .shiftRight => 7
  | .binary .concat => 8
  | .binary .add | .binary .subtract => 9
  | .binary .multiply | .binary .divide | .binary .floorDivide | .binary .modulo => 10
  | .binary .power => 12

/-- Whether a row of an operator nests to the right. -/
def Operator.NestsRight (operator : Operator) : Prop :=
  operator = .binary .concat ∨ operator = .binary .power

instance (operator : Operator) : Decidable operator.NestsRight :=
  inferInstanceAs (Decidable (_ ∨ _))

/-- How tightly a tree holds together: an operator before an operand has a rank as well, and what is no
operator is not taken apart at all. -/
def Expression.rank : Expression → Nat
  | .unary _ _ _ => 11
  | .binary operator _ _ _ => (Operator.binary operator).rank
  | .logical operator _ _ _ => (Operator.logical operator).rank
  | _ => 13

/-- Whether an operator stands before a tree that takes it for its operand. -/
def Expression.isUnary : Expression → Bool
  | .unary _ _ _ => true
  | _ => false

/-- Whether a tree of ranks may be the left operand of an operator. -/
def Operator.FitsLeft (operator : Operator) (left : Expression) : Prop :=
  operator.rank < left.rank ∨ (operator.rank = left.rank ∧ ¬ operator.NestsRight)

instance (operator : Operator) (left : Expression) : Decidable (operator.FitsLeft left) :=
  inferInstanceAs (Decidable (_ ∨ _))

/-- Whether a tree of ranks may be the right operand of an operator. -/
def Operator.FitsRight (operator : Operator) (right : Expression) : Prop :=
  right.isUnary = true ∨ operator.rank < right.rank ∨ (operator.rank = right.rank ∧ operator.NestsRight)

instance (operator : Operator) (right : Expression) : Decidable (operator.FitsRight right) :=
  inferInstanceAs (Decidable (_ ∨ _ ∨ _))

/-- Whether a tree of ranks may have an operator before it: names, literals, and what begins with an operator or
is a power. -/
def Expression.FitsUnary : Expression → Prop
  | .identifier _ | .literal _ | .unary _ _ _ | .binary .power _ _ _ => True
  | _ => False

/-- The trees of rows of operands: their tokens in order, with operators as their ranks ask. -/
inductive Expression.Ranks : Expression → List Token → Prop where
  | name {name : Identifier} {token : Token} : token.name? = some name.name → Ranks (.identifier name) [token]
  | literal {literal : Literal} {token : Token} : literalValue? token.value = some literal.value →
      token.lexeme = literal.raw → Ranks (.literal literal) [token]
  | unary {operator : UnaryOperator} {token : Token} {argument : Expression} {placement : Placement}
      {row : List Token} : UnaryOperator.ofToken? token.value = some operator → argument.Ranks row →
      argument.FitsUnary → Ranks (.unary operator argument placement) (token :: row)
  | operation {operator : Operator} {token : Token} {left right : Expression} {placement : Placement}
      {before behind : List Token} : Operator.ofToken? token.value = some operator → left.Ranks before →
      right.Ranks behind → operator.FitsLeft left → operator.FitsRight right →
      Ranks (joined operator left right placement) (before ++ token :: behind)

/-- Whether a token is a name or a literal. -/
def Token.IsAtom (token : Token) : Prop :=
  token.kind = .identifier ∨ (literalValue? token.value).isSome = true

/-- Names and literals, each with any number of operators before it, joined by operators. -/
inductive OperandRow : List Token → Prop where
  | atom {token : Token} : token.IsAtom → OperandRow [token]
  | prefixed {operator : UnaryOperator} {token : Token} {row : List Token} :
      UnaryOperator.ofToken? token.value = some operator → OperandRow row → OperandRow (token :: row)
  | joined {operator : Operator} {atom token : Token} {row : List Token} : atom.IsAtom →
      Operator.ofToken? token.value = some operator → OperandRow row → OperandRow (atom :: token :: row)

namespace Operator

variable {operator other : Operator} {e : Expression}

/-- The levels of the parser are the ranks of the operators. -/
@[simp] theorem level_eq_rank (operator : Operator) : operator.level = operator.rank := by
  rcases operator with operator | operator <;> cases operator <;> rfl

/-- The operators that group to the right are those that nest to the right. -/
theorem groupsRight_iff (operator : Operator) : operator.groupsRight = true ↔ operator.NestsRight := by
  rcases operator with operator | operator <;> cases operator <;> decide

/-- Behind an operator comes what ranks above it, or as high where it nests to the right. -/
theorem rightLevel_eq (operator : Operator) :
    operator.rightLevel = if operator.NestsRight then operator.rank - 1 else operator.rank := by
  rw [rightLevel, level_eq_rank]
  simp only [groupsRight_iff]

/-- Every rank is positive. -/
theorem rank_pos (operator : Operator) : 0 < operator.rank := by
  rcases operator with operator | operator <;> cases operator <;> decide

/-- Only the power operator binds more tightly than an operator before an operand, and none equally. -/
theorem rank_le (operator : Operator) : operator.rank ≤ 10 ∨ operator = .binary .power := by
  rcases operator with operator | operator <;> cases operator <;> decide

/-- No operator ranks above all. -/
theorem rank_lt (operator : Operator) : operator.rank < 13 := by
  rcases operator with operator | operator <;> cases operator <;> decide

/-- Operators of one rank nest alike. -/
theorem nestsRight_of_rank (h : operator.rank = other.rank) : operator.NestsRight ↔ other.NestsRight := by
  rcases operator with operator | operator <;> cases operator <;> rcases other with other | other <;>
    cases other <;> revert h <;> decide

/-- A tree of an operator has the rank of the operator. -/
@[simp] theorem rank_joined (operator : Operator) (left right : Expression) (placement : Placement) :
    (joined operator left right placement).rank = operator.rank := by
  cases operator <;> rfl

/-- A tree of an operator between operands is not unary. -/
@[simp] theorem isUnary_joined (operator : Operator) (left right : Expression) (placement : Placement) :
    (joined operator left right placement).isUnary = false := by
  cases operator <;> rfl

/-- An operator before which a power can stand is the power operator. -/
theorem fitsUnary_joined {left right : Expression} {placement : Placement} :
    (joined operator left right placement).FitsUnary ↔ operator = .binary .power := by
  rcases operator with operator | operator <;> cases operator <;>
    simp [joined, Expression.FitsUnary]

end Operator

/-! ## Every row has a tree -/

namespace Expression.Ranks

open Operator

variable {e : Expression} {row : List Token} {token atom : Token}

/-- A tree that holds together more than any operator. -/
theorem of_atom (h : token.IsAtom) : ∃ e : Expression, e.Ranks [token] ∧ e.rank = 13 := by
  rcases h with hname | hliteral
  · obtain ⟨name, hvalue⟩ := Token.value_of_kind hname
    have hspelled : token.name? = some (Identifier.mk name false .none).name := by rw [Token.name?, hvalue]
    exact ⟨_, .name hspelled, rfl⟩
  · obtain ⟨value, hvalue⟩ := Option.isSome_iff_exists.mp hliteral
    exact ⟨.literal ⟨value, token.lexeme, .none⟩, .literal hvalue rfl, rfl⟩

/-- An operator goes before the leftmost operand, with as much of what is behind it as binds more tightly. -/
theorem prefixed {operator : UnaryOperator} (hoperator : UnaryOperator.ofToken? token.value = some operator)
    (h : e.Ranks row) : ∃ e' : Expression, e'.Ranks (token :: row) ∧ (e'.rank = 11 ∨ e'.rank = e.rank) := by
  have htake {e : Expression} {row : List Token} (h : e.Ranks row) (hfits : e.FitsUnary) :
      ∃ e' : Expression, e'.Ranks (token :: row) ∧ (e'.rank = 11 ∨ e'.rank = e.rank) :=
    ⟨.unary operator e .none, .unary hoperator h hfits, .inl rfl⟩
  induction h with
  | name hname => exact htake (.name hname) trivial
  | literal hvalue hraw => exact htake (.literal hvalue hraw) trivial
  | unary hinner hargument hfits => exact htake (.unary hinner hargument hfits) trivial
  | @operation other _ left right placement _ _ htoken hleft hright hfitsLeft hfitsRight ihleft =>
    by_cases hpower : other = .binary .power
    · exact htake (.operation htoken hleft hright hfitsLeft hfitsRight) (fitsUnary_joined.mpr hpower)
    · obtain ⟨left', hleft', hrank⟩ := ihleft
      have hlow := other.rank_le.resolve_right hpower
      have hfits : other.FitsLeft left' := by
        unfold FitsLeft at hfitsLeft ⊢
        rcases hrank with hrank | hrank
        · left
          omega
        · rw [hrank]
          exact hfitsLeft
      refine ⟨joined other left' right placement, .operation htoken hleft' hright hfits hfitsRight, .inr ?_⟩
      rw [rank_joined, rank_joined]

/-- An operand with an operator behind it goes before the leftmost operand, and the operator takes as much of
what is behind it as may be its right operand. -/
theorem grafted {operator : Operator} (hatom : atom.IsAtom)
    (hoperator : Operator.ofToken? token.value = some operator) (h : e.Ranks row) :
    ∃ e' : Expression, e'.Ranks (atom :: token :: row) ∧ (e'.rank = operator.rank ∨ e'.rank = e.rank) := by
  obtain ⟨first, hfirst, hrank⟩ := of_atom hatom
  have hfitsFirst : operator.FitsLeft first := .inl (hrank ▸ operator.rank_lt)
  have htake {e : Expression} {row : List Token} (h : e.Ranks row) (hfits : operator.FitsRight e) :
      ∃ e' : Expression, e'.Ranks (atom :: token :: row) ∧ (e'.rank = operator.rank ∨ e'.rank = e.rank) :=
    ⟨joined operator first e .none, .operation hoperator hfirst h hfitsFirst hfits, .inl (rank_joined ..)⟩
  induction h with
  | name hname => exact htake (.name hname) (.inr (.inl operator.rank_lt))
  | literal hvalue hraw => exact htake (.literal hvalue hraw) (.inr (.inl operator.rank_lt))
  | unary hinner hargument hfits => exact htake (.unary hinner hargument hfits) (.inl rfl)
  | @operation other _ left right placement _ _ htoken hleft hright hfitsLeft hfitsRight ihleft =>
    by_cases hfits : operator.FitsRight (joined other left right placement)
    · exact htake (.operation htoken hleft hright hfitsLeft hfitsRight) hfits
    · obtain ⟨left', hleft', hrank'⟩ := ihleft
      simp only [FitsRight, isUnary_joined, rank_joined, Bool.false_eq_true, false_or, not_or, not_and]
        at hfits
      have hfitsLeft' : other.FitsLeft left' := by
        unfold FitsLeft at hfitsLeft ⊢
        rcases hrank' with hrank' | hrank'
        · rcases Nat.lt_or_eq_of_le (Nat.le_of_not_lt hfits.1) with hlt | heq
          · exact .inl (hrank' ▸ hlt)
          · have hnests := nestsRight_of_rank heq
            exact .inr ⟨heq.trans hrank'.symm, fun h => hfits.2 heq.symm (hnests.mp h)⟩
        · rw [hrank']
          exact hfitsLeft
      refine ⟨joined other left' right placement, .operation htoken hleft' hright hfitsLeft' hfitsRight, .inr ?_⟩
      rw [rank_joined, rank_joined]

end Expression.Ranks

/-- Every row of operands has a tree. -/
theorem OperandRow.ranks {row : List Token} (h : OperandRow row) : ∃ e : Expression, e.Ranks row := by
  induction h with
  | atom hatom =>
    obtain ⟨e, he, -⟩ := Expression.Ranks.of_atom hatom
    exact ⟨e, he⟩
  | prefixed hoperator _ ih =>
    obtain ⟨e, he⟩ := ih
    obtain ⟨e', he', -⟩ := he.prefixed hoperator
    exact ⟨e', he'⟩
  | joined hatom hoperator _ ih =>
    obtain ⟨e, he⟩ := ih
    obtain ⟨e', he', -⟩ := he.grafted hatom hoperator
    exact ⟨e', he'⟩

/-! ## How rows of operands are written -/

open Writing
open Grammar (startsSuffix)

variable {dialect : Dialect} {inner : Writing} {p q : Point} {row : List Token} {e : Expression}

/-! ### Points around a row -/

/-- The tokens between two points. -/
inductive Point.Spans : Point → List Token → Point → Prop where
  | nil {p : Point} : Spans p [] p
  | cons {p q : Point} {token : Token} {row : List Token} : p.token = token → Spans p.step row q →
      Spans p (token :: row) q

namespace Point

/-- Tokens between two points are passed part by part. -/
theorem Spans.of_append {before behind : List Token} (h : p.Spans (before ++ behind) q) :
    ∃ m, p.Spans before m ∧ m.Spans behind q := by
  induction before generalizing p with
  | nil => exact ⟨p, .nil, h⟩
  | cons token before ih =>
    cases h with
    | cons htoken hrest =>
      obtain ⟨m, hbefore, hbehind⟩ := ih hrest
      exact ⟨m, .cons htoken hbefore, hbehind⟩

/-- A point is passed over by the tokens in front of it. -/
theorem spans_of_rest {rest : List Token} (h : p.rest = row ++ rest) :
    ∃ q, p.Spans row q ∧ q.rest = rest ∧ q.last = p.last := by
  induction row generalizing p with
  | nil => exact ⟨p, .nil, h, rfl⟩
  | cons token row ih =>
    have hrest : p.step.rest = row ++ rest := by
      rw [step, h]
      rfl
    obtain ⟨q, hspans, hq, hlast⟩ := ih hrest
    have htoken : p.token = token := by
      rw [Point.token, h]
      rfl
    exact ⟨q, .cons htoken hspans, hq, hlast⟩

/-- Whether what stands behind a point takes nothing away from a tree that ends there. -/
def Bounds (q : Point) (e : Expression) : Prop :=
  q.token.isEnd = true ∨
    ∃ operator, Operator.ofToken? q.token.value = some operator ∧ operator.FitsLeft e

/-- What bounds a tree starts no suffix. -/
theorem Bounds.startsSuffix_eq (h : q.Bounds e) : startsSuffix q.token = false := by
  rcases h with hend | ⟨operator, hoperator, -⟩
  · rw [startsSuffix, beq_iff_eq.mp hend]
  · unfold startsSuffix
    split
    all_goals first | rfl | (next hvalue => rw [hvalue] at hoperator; cases hoperator)

end Point

/-! ### What bounds a tree bounds its right edge -/

namespace Operator

variable {operator other : Operator} {left right : Expression} {placement : Placement}

/-- A unary tree ranks as its operator does. -/
theorem rank_of_isUnary (h : e.isUnary = true) : e.rank = 11 := by
  cases e with
  | unary => rfl
  | _ => cases h

/-- An operator that has a tree for its left operand leaves the right operand in the tree as it is. -/
theorem FitsLeft.edge (h : other.FitsLeft (joined operator left right placement))
    (hright : operator.FitsRight right) : other.FitsLeft right := by
  have hnests : other.rank = operator.rank → (other.NestsRight ↔ operator.NestsRight) := nestsRight_of_rank
  have hpower (o : Operator) (ho : o = .binary .power) : o.rank = 12 ∧ o.NestsRight := by
    subst ho
    exact ⟨rfl, .inr rfl⟩
  have hother := other.rank_le.imp_right (hpower other)
  have hoperator := operator.rank_le.imp_right (hpower operator)
  unfold FitsLeft at h ⊢
  rw [rank_joined] at h
  rcases hright with hunary | hlt | ⟨heq, hoperatorNests⟩
  · rw [rank_of_isUnary hunary]
    left
    rcases h with h | ⟨h, hnot⟩
    · omega
    · rcases hother with hother | ⟨-, hother⟩
      · omega
      · exact absurd hother hnot
  · left
    omega
  · rcases h with h | ⟨h, hnot⟩
    · left
      omega
    · exact absurd ((hnests h).mpr hoperatorNests) hnot

/-- Such an operator does not bind as tightly as the right operand asks. -/
theorem FitsLeft.level_le (h : other.FitsLeft (joined operator left right placement)) :
    other.level ≤ operator.rightLevel := by
  unfold FitsLeft at h
  rw [rank_joined] at h
  rw [level_eq_rank, rightLevel_eq]
  split
  · next hnests =>
    rcases h with h | ⟨h, hnot⟩
    · omega
    · exact absurd ((nestsRight_of_rank h).mpr hnests) hnot
  · omega

/-- A right operand binds more tightly than its level. -/
theorem FitsRight.level_lt (h : operator.FitsRight right) :
    operator.rightLevel < right.rank ∨ right.isUnary = true := by
  have hpos := operator.rank_pos
  rw [rightLevel_eq]
  rcases h with hunary | hlt | ⟨heq, hnests⟩
  · exact .inr hunary
  · left
    split <;> omega
  · left
    rw [if_pos hnests]
    omega

end Operator

/-- What may have an operator before it binds more tightly than the operand of one has to. -/
theorem Expression.FitsUnary.rank_ge (h : e.FitsUnary) : 11 ≤ e.rank := by
  cases e with
  | identifier | literal => exact (by decide : 11 ≤ 13)
  | unary => exact Nat.le_refl 11
  | binary operator =>
    cases operator with
    | power => exact (by decide : 11 ≤ 12)
    | _ => exact h.elim
  | _ => exact h.elim

namespace Point

/-- What bounds a tree of an operator is an operator that takes its right operand from none of it. -/
theorem Bounds.level_le {operator : Operator} {left right : Expression} {placement : Placement}
    (h : q.Bounds (joined operator left right placement)) (other : Operator)
    (hother : Operator.ofToken? q.token.value = some other) : other.level ≤ operator.rightLevel := by
  rcases h with hend | ⟨found, hfound, hfits⟩
  · rw [beq_iff_eq.mp hend] at hother
    cases hother
  · obtain rfl := Option.some.inj (hfound.symm.trans hother)
    exact hfits.level_le

/-- What bounds an operator before an operand does not bind as tightly as the operand has to. -/
theorem Bounds.rank_le {operator : UnaryOperator} {placement : Placement}
    (h : q.Bounds (.unary operator e placement)) (other : Operator)
    (hother : Operator.ofToken? q.token.value = some other) : other.rank ≤ 10 := by
  rcases h with hend | ⟨found, hfound, hfits⟩
  · rw [beq_iff_eq.mp hend] at hother
    cases hother
  · obtain rfl := Option.some.inj (hfound.symm.trans hother)
    have hrank : Expression.rank (.unary operator e placement) = 11 := rfl
    rcases found.rank_le with hle | rfl
    · exact hle
    · rcases hfits with hlt | ⟨heq, -⟩
      · rw [hrank] at hlt
        exact absurd hlt (by decide)
      · rw [hrank] at heq
        exact absurd heq (by decide)

/-- What bounds a unary tree bounds its operand. -/
theorem Bounds.argument {operator : UnaryOperator} {placement : Placement}
    (h : q.Bounds (.unary operator e placement)) (hfits : e.FitsUnary) : q.Bounds e := by
  have hle := h.rank_le
  refine h.imp_right ?_
  rintro ⟨other, hother, -⟩
  have hrank := hfits.rank_ge
  exact ⟨other, hother, .inl (by have := hle other hother; omega)⟩

end Point

/-! ### Trees of rows are written -/

/-- A tree is written up to a point, with operators that bind more tightly than a level; more may follow. -/
def Climbs (dialect : Dialect) (inner : Writing) (level : Nat) (e : Expression) (p q : Point) : Prop :=
  ∃ first m, Operand dialect inner first p m ∧
    Relation.ReflTransGen (Joining inner level) (first, m) (e, q)

/-- A tree that climbs up to a point is an operation there if no operator goes on with it. -/
theorem Climbs.operation {level : Nat} (h : Climbs dialect inner level e p q)
    (hstop : ∀ operator, Operator.ofToken? q.token.value = some operator → operator.level ≤ level) :
    Operation dialect inner level e p q := by
  obtain ⟨first, m, hfirst, hsteps⟩ := h
  exact .mk hfirst hsteps hstop

/-- The tree of a row is written with the row. -/
theorem Expression.Ranks.climbs (h : e.Ranks row) {depth level : Nat} (hdepth : row.length ≤ depth)
    (hspans : p.Spans row q) (hbounds : q.Bounds e) (hlevel : level < e.rank ∨ e.isUnary = true) :
    Climbs dialect (.ofDepth dialect depth) level e p q := by
  induction h generalizing depth level p q with
  | name hname =>
    cases hspans with
    | cons htoken hrest =>
      cases hrest
      have hnames : p.Names _ := htoken ▸ hname
      exact ⟨_, _, .suffixed (.name hnames .refl hbounds.startsSuffix_eq), .refl⟩
  | @literal leaf _ hvalue hraw =>
    cases hspans with
    | cons htoken hrest =>
      cases hrest
      have hdenotes : p.Denotes leaf := by
        rw [Point.Denotes, htoken]
        exact ⟨hvalue, hraw⟩
      exact ⟨_, _, .literal hdenotes, .refl⟩
  | unary hoperator hargument hfits ih =>
    cases hspans with
    | cons htoken hrest =>
      obtain ⟨depth, rfl⟩ : ∃ less, depth = less + 1 := ⟨depth - 1, by simp at hdepth; omega⟩
      have hclimbs := ih (Nat.le_of_succ_le_succ hdepth) hrest (hbounds.argument hfits)
        (.inl (show UnaryOperator.operandLevel < _ from hfits.rank_ge))
      have hinner := hclimbs.operation fun other hother => by
        rw [Operator.level_eq_rank]
        exact hbounds.rank_le other hother
      exact ⟨_, _, .unary (htoken ▸ hoperator) hinner, .refl⟩
  | @operation operator token left right placement before behind hoperator hleft hright hfitsLeft hfitsRight
      ihleft ihright =>
    simp only [Operator.rank_joined, Operator.isUnary_joined, Bool.false_eq_true, or_false] at hlevel
    simp only [List.length_append, List.length_cons] at hdepth
    obtain ⟨m, hbefore, hrest⟩ := hspans.of_append
    cases hrest with
    | cons htoken hbehind =>
      obtain ⟨depth, rfl⟩ : ∃ less, depth = less + 1 := ⟨depth - 1, by omega⟩
      have hbound : m.Bounds left := .inr ⟨operator, htoken ▸ hoperator, hfitsLeft⟩
      have hlower : level < left.rank ∨ left.isUnary = true := by
        unfold Operator.FitsLeft at hfitsLeft
        left
        omega
      have hspine : Climbs dialect (.ofDepth dialect (depth + 1)) level left p m :=
        ihleft (by omega) hbefore hbound hlower
      obtain ⟨first, m', hfirst, hsteps⟩ := hspine
      have hedge : q.Bounds right := by
        refine hbounds.imp_right fun hfits => ?_
        obtain ⟨other, hother, hfits⟩ := hfits
        exact ⟨other, hother, hfits.edge hfitsRight⟩
      have hclimbs : Climbs dialect (.ofDepth dialect depth) operator.rightLevel right m.step q :=
        ihright (by omega) hbehind hedge hfitsRight.level_lt
      have hinner := hclimbs.operation hbounds.level_le
      have hjoining : Joining (.ofDepth dialect (depth + 1)) level (left, m)
          (joined operator left right placement, q) :=
        .mk (htoken ▸ hoperator) (by rw [Operator.level_eq_rank]; exact hlevel) hinner
      exact ⟨first, m', hfirst, hsteps.tail hjoining⟩

/-- The tree of a row at the end of the input is an expression there. -/
theorem Expression.Ranks.operation_of_end (h : e.Ranks row) {depth : Nat} (hdepth : row.length ≤ depth)
    (hspans : p.Spans row q) (hend : q.token.isEnd = true) :
    Operation dialect (.ofDepth dialect depth) 0 e p q := by
  have hrank : 0 < e.rank ∨ e.isUnary = true := by
    left
    cases h with
    | name | literal => exact (by decide : 0 < 13)
    | unary => exact (by decide : 0 < 11)
    | operation =>
      rw [Operator.rank_joined]
      exact Operator.rank_pos _
  refine (h.climbs hdepth hspans (.inl hend) hrank).operation fun other hother => ?_
  rw [beq_iff_eq.mp hend] at hother
  cases hother

/-- Names and literals and what is made of them with operators may stand where three dots may. -/
theorem Expression.Ranks.wellFormed (h : e.Ranks row) {around : Surroundings}
    (hvararg : around.allowsVararg = true) : e.WellFormed around false := by
  induction h with
  | name => trivial
  | literal => exact fun _ => hvararg
  | unary _ _ _ ih => exact ih
  | @operation operator _ _ _ _ _ _ _ _ _ _ _ ihleft ihright => cases operator <;> exact ⟨ihleft, ihright⟩

end LuaSyntax
