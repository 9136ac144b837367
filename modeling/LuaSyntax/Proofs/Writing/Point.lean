import LuaSyntax.Grammar.Leaf

/-!
# Points in a row of tokens

A row of tokens has an end, which is a token too and is there as often as it is looked for. A point in
the row is between two tokens, and what is written between one point and another is what the tokens
between them are. From a point the row is seen as the grammar sees it: the token behind the point, the
one behind that, and the token before.
-/

namespace LuaSyntax

/-- A point in a row of tokens. -/
structure Point where
  /-- The token before the point. -/
  previous : Token
  /-- The tokens behind it. -/
  rest : List Token
  /-- The token that ends the row. -/
  last : Token
  isEnd_last : last.isEnd = true

/-- Tokens that denote the same literal have the same value. -/
theorem literalValue?_injective {a b : TokenValue} {value : LiteralValue}
    (ha : Grammar.literalValue? a = some value) (hb : Grammar.literalValue? b = some value) : a = b := by
  cases a <;> cases ha <;> cases b <;> cases hb <;> rfl

namespace Point

/-- The point before some tokens. -/
def before (tokens : List Token) (last : Token) (h : last.isEnd = true) : Point :=
  ⟨.endOfInput .start, tokens, last, h⟩

/-- The token behind the point. -/
def token (p : Point) : Token := p.rest.headD p.last

/-- The second token behind the point. -/
def ahead (p : Point) : Token := p.rest.tail.headD p.last

/-- The next point. -/
def step (p : Point) : Point := { p with previous := p.token, rest := p.rest.tail }

/-- Whether a given token stands behind the point. -/
def Faces (p : Point) (terminal : Grammar.Terminal) : Prop := p.token.value = terminal.value

instance (p : Point) (terminal : Grammar.Terminal) : Decidable (p.Faces terminal) :=
  inferInstanceAs (Decidable (p.token.value = terminal.value))

/-- A name stands behind the point. -/
def Names (p : Point) (identifier : Identifier) : Prop := p.token.name? = some identifier.name

/-- A literal stands behind the point. -/
def Denotes (p : Point) (literal : Literal) : Prop :=
  Grammar.literalValue? p.token.value = some literal.value ∧ p.token.lexeme = literal.raw

/-- The point behind a token that may be there. -/
def skip (p : Point) (terminal : Grammar.Terminal) : Point :=
  if p.Faces terminal then p.step else p

/-- Whether a point is not before another, and the row has not ended between them. -/
def Reaches (p q : Point) : Prop :=
  ∃ passed, p.rest = passed ++ q.rest ∧ (∀ token ∈ passed, token.isEnd = false) ∧ q.last = p.last

variable {p q r : Point} {terminal : Grammar.Terminal}

/-- Behind the next token stands the second one. -/
@[simp] theorem token_step : p.step.token = p.ahead := rfl

/-- The next token has been passed. -/
@[simp] theorem previous_step : p.step.previous = p.token := rfl

/-- The end of the row stays the same at the next point. -/
@[simp] theorem last_step : p.step.last = p.last := rfl

/-- A point reaches itself. -/
@[refl] theorem Reaches.refl (p : Point) : p.Reaches p := ⟨[], rfl, List.forall_mem_nil _, rfl⟩

/-- A point reaches what a point it reaches does. -/
theorem Reaches.trans (h : p.Reaches q) (h' : q.Reaches r) : p.Reaches r := by
  obtain ⟨passed, hp, hpassed, hlast⟩ := h
  obtain ⟨passed', hq, hpassed', hlast'⟩ := h'
  refine ⟨passed ++ passed', ?_, List.forall_mem_append.mpr ⟨hpassed, hpassed'⟩,
    hlast'.trans hlast⟩
  rw [hp, hq, List.append_assoc]

/-- A row is not at its end if a token stands there that is not the end. -/
theorem rest_of_token (h : p.token.isEnd = false) : p.rest = p.token :: p.step.rest := by
  cases hrest : p.rest with
  | nil =>
    have hend := p.isEnd_last
    rw [Point.token, hrest] at h
    exact absurd (hend.symm.trans h) Bool.true_eq_false.mp
  | cons token rest => rw [Point.token, step, hrest, List.headD_cons, List.tail_cons]

/-- A point before a token that is not the end reaches the next. -/
theorem reaches_step (h : p.token.isEnd = false) : p.Reaches p.step :=
  ⟨[p.token], rest_of_token h, List.forall_mem_singleton.mpr h, rfl⟩

/-- What has reached the end has passed all that is before the end. -/
theorem Reaches.rest_eq (h : p.Reaches q) (hend : q.token.isEnd = true) :
    q.rest = p.rest.dropWhile fun token => !token.isEnd := by
  obtain ⟨passed, hrest, hpassed, -⟩ := h
  rw [hrest, List.dropWhile_append_of_pos fun token htoken => by rw [hpassed token htoken]; rfl]
  cases hq : q.rest with
  | nil => rfl
  | cons token rest =>
    rw [Point.token, hq, List.headD_cons] at hend
    rw [List.dropWhile_cons_of_neg]
    rw [hend]
    exact Bool.false_ne_true

/-- A point that faces a terminal is not at the end. -/
theorem Faces.isEnd_eq (h : p.Faces terminal) : p.token.isEnd = false := by
  rw [Token.isEnd, show p.token.value = _ from h]
  cases terminal <;> rfl

/-- A point before a name is not at the end. -/
theorem Names.isEnd_eq {identifier : Identifier} (h : p.Names identifier) :
    p.token.isEnd = false := by
  cases hend : p.token.isEnd with
  | false => rfl
  | true =>
    rw [Token.isEnd, beq_iff_eq] at hend
    rw [Names, Token.name?, hend] at h
    cases h

/-- A point before a literal is not at the end. -/
theorem Denotes.isEnd_eq {literal : Literal} (h : p.Denotes literal) : p.token.isEnd = false := by
  cases hend : p.token.isEnd with
  | false => rfl
  | true =>
    rw [Token.isEnd, beq_iff_eq] at hend
    rw [Denotes, hend] at h
    cases h.1

/-- Where one token stands no other does. -/
theorem Faces.not_faces {other : Grammar.Terminal} (h : p.Faces terminal) (hne : terminal ≠ other) :
    ¬ p.Faces other := by
  intro hother
  have hvalue : terminal.value = other.value := h.symm.trans hother
  cases terminal <;> cases other <;> cases hvalue <;> exact hne rfl

/-- A name is no keyword and no symbol. -/
theorem Names.not_faces {identifier : Identifier} (h : p.Names identifier) : ¬ p.Faces terminal := by
  intro hfaces
  rw [Names, Token.name?, show p.token.value = _ from hfaces] at h
  cases terminal <;> cases h

/-- A point before a literal faces no terminal. -/
theorem Denotes.not_faces {literal : Literal} (h : p.Denotes literal) : ¬ p.Faces terminal := by
  intro hfaces
  rw [Denotes, show p.token.value = _ from hfaces] at h
  cases terminal <;> cases h.1

/-- What value a token has that denotes a literal. -/
theorem Denotes.value_eq {literal : Literal} (h : p.Denotes literal) {value : TokenValue}
    (hvalue : Grammar.literalValue? value = some literal.value) : p.token.value = value :=
  literalValue?_injective h.1 hvalue

/-- A token that is there is skipped. -/
theorem skip_of_faces (h : p.Faces terminal) : p.skip terminal = p.step := if_pos h

/-- A token that is not there is not skipped. -/
theorem skip_of_not_faces (h : ¬ p.Faces terminal) : p.skip terminal = p := if_neg h

end Point

end LuaSyntax
