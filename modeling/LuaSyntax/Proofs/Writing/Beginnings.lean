import LuaSyntax.Proofs.Grammar.Same
import LuaSyntax.Proofs.Writing.Statement

/-!
# With what things begin and end

The grammar looks at one token, and sometimes at two, to see what stands there. What is written begins
with a token that tells, and the token behind a name at its beginning tells whether it goes on.
-/

namespace LuaSyntax

variable {dialect : Dialect} {inner : Writing} {p q : Point}

namespace Writing

/-! ## Operands and suffixes -/

/-- A token that denotes something is no operator before an operand. -/
theorem unary_of_denotes {literal : Literal} (h : p.Denotes literal) :
    UnaryOperator.ofToken? p.token.value = none := by
  have hdenotes := h.1
  cases hvalue : p.token.value <;> rw [hvalue] at hdenotes <;> first | rfl | cases hdenotes

/-- What has suffixes begins with a name or a parenthesis. -/
theorem Suffixed.begins {bare : Bool} {v : Expression} (h : Suffixed dialect inner bare v p q) :
    (∃ name, p.token.value = .identifier name) ∨ p.Faces Symbol.leftParen := by
  cases h with
  | name hname => exact .inl (Token.value_of_kind (Token.kind_of_name hname))
  | enclosed henclosed =>
    cases henclosed with
    | mk hleft => exact .inr hleft

/-- Arguments begin neither with an index nor with a name. -/
theorem Arguments.not_faces {a b : Expression × Point} (h : Arguments dialect inner a b) :
    ¬ a.2.Faces Symbol.leftBracket ∧ ¬ a.2.Faces Symbol.dot ∧ ¬ a.2.Faces Symbol.colon := by
  cases h with
  | list h => exact ⟨h.not_faces (by decide), h.not_faces (by decide), h.not_faces (by decide)⟩
  | table h => exact ⟨h.not_faces (by decide), h.not_faces (by decide), h.not_faces (by decide)⟩
  | string h => exact ⟨h.not_faces, h.not_faces, h.not_faces⟩

/-- What goes on with something is said by the token behind it. -/
theorem Suffix.starts {a b : Expression × Point} (h : Suffix dialect inner a b) :
    Grammar.startsSuffix a.2.token = true := by
  have harguments {a b : Expression × Point} (h : Arguments dialect inner a b) :
      Grammar.startsSuffix a.2.token = true := by
    cases h with
    | list hleft => rw [Grammar.startsSuffix, show Token.value _ = _ from hleft]; rfl
    | table hleft => rw [Grammar.startsSuffix, show Token.value _ = _ from hleft]; rfl
    | string hliteral hvalue =>
      have hstring : Token.value _ = .string _ := hliteral.value_eq (congrArg some hvalue.symm)
      rw [Grammar.startsSuffix, hstring]
  cases h with
  | index hleft => rw [Grammar.startsSuffix, show Token.value _ = _ from hleft]; rfl
  | member hdot => rw [Grammar.startsSuffix, show Token.value _ = _ from hdot]; rfl
  | method hcolon => rw [Grammar.startsSuffix, show Token.value _ = _ from hcolon]; rfl
  | arguments h => exact harguments h

/-- Behind a name at the beginning of something with suffixes a suffix begins, or it is all. -/
theorem Suffixed.ahead {bare : Bool} {v : Expression} (h : Suffixed dialect inner bare v p q)
    (hkind : p.token.kind = .identifier) : p.step = q ∨ Grammar.startsSuffix p.step.token = true := by
  cases h with
  | name _ hsuffixes =>
    rcases hsuffixes.cases_head with heq | ⟨_, hfirst, -⟩
    · exact .inl (Prod.mk.inj heq).2
    · exact .inr hfirst.starts
  | enclosed henclosed =>
    obtain ⟨hleft, -, -⟩ := henclosed
    rw [Token.kind, show p.token.value = _ from hleft] at hkind
    cases hkind

/-! ## Expressions -/

/-- Nothing behind a point goes on with an expression. -/
structure Closes (p : Point) : Prop where
  suffix : Grammar.startsSuffix p.token = false
  operator : Operator.ofToken? p.token.value = none

/-- What an expression is followed by that ends there. -/
theorem closes_of_faces {terminal : Grammar.Terminal} (h : p.Faces terminal)
    (hterminal : terminal ∈ ([Symbol.rightParen, Symbol.rightBracket, Symbol.rightBrace, Symbol.comma,
      Symbol.semicolon, Symbol.assign, ReservedWord.thenWord, ReservedWord.doWord] :
        List Grammar.Terminal)) : Closes p := by
  have hvalue : p.token.value = terminal.value := h
  simp only [List.mem_cons, List.not_mem_nil, or_false] at hterminal
  rcases hterminal with rfl | rfl | rfl | rfl | rfl | rfl | rfl | rfl <;>
    exact ⟨by rw [Grammar.startsSuffix, hvalue]; rfl, by rw [hvalue]; rfl⟩

/-- Behind a name at the beginning of an expression the expression goes on, or it is all. -/
theorem Operation.ahead {level : Nat} {v : Expression} (h : Operation dialect inner level v p q)
    (hkind : p.token.kind = .identifier) : p.step = q ∨ ¬ Closes p.step := by
  obtain ⟨hfirst, hsteps, -⟩ := h
  have hfaces {terminal : Grammar.Terminal} (h : p.Faces terminal) : False := by
    rw [Token.kind, show p.token.value = _ from h] at hkind
    cases terminal <;> cases hkind
  cases hfirst with
  | literal h =>
    obtain ⟨name, hvalue⟩ := Token.value_of_kind hkind
    have hdenotes := h.1
    rw [hvalue] at hdenotes
    cases hdenotes
  | function h => exact (hfaces h).elim
  | table h => exact (hfaces h).elim
  | make h => exact (hfaces h).elim
  | unary h =>
    obtain ⟨name, hvalue⟩ := Token.value_of_kind hkind
    rw [hvalue] at h
    cases h
  | suffixed h =>
    rcases h.ahead hkind with heq | hstarts
    · rcases hsteps.cases_head with hlast | ⟨_, hjoining, -⟩
      · exact .inl (heq.trans (Prod.mk.inj hlast).2)
      · rw [heq]
        refine .inr fun hcloses => ?_
        cases hjoining with
        | mk hoperator => exact Option.some_ne_none _ (hoperator.symm.trans hcloses.operator)
    · exact .inr fun hcloses => Bool.false_ne_true (hcloses.suffix.symm.trans hstarts)

/-- An expression begins with a token that says so. -/
theorem Operation.starts {level : Nat} {v : Expression} (h : Operation dialect inner level v p q) :
    p.token.startsExpression = true := by
  obtain ⟨hfirst, -, -⟩ := h
  have hfaces {terminal : Grammar.Terminal} (h : p.Faces terminal) (hstarts : (⟨terminal.value,
      .start, .start, ""⟩ : Token).startsExpression = true) : p.token.startsExpression = true := by
    rw [Token.startsExpression, Token.kind, Token.isWord, Token.isWord, Token.isSymbol, Token.isSymbol,
      show p.token.value = _ from h]
    exact hstarts
  cases hfirst with
  | literal h => simp [Token.startsExpression, h.1]
  | function h => exact hfaces h rfl
  | table h => exact hfaces h rfl
  | make h => exact hfaces h rfl
  | unary h => simp [Token.startsExpression, h]
  | suffixed h =>
    rcases h.begins with ⟨name, hname⟩ | hleft
    · simp [Token.startsExpression, Token.kind, hname, TokenValue.kind]
    · exact hfaces hleft rfl

end Writing

/-! ## Statements -/

/-- The keyword that a statement begins with, if it always begins with one. -/
def Statement.keyword? : Statement → Option ReservedWord
  | .breakStatement _ => some .breakWord
  | .returnStatement _ _ => some .returnWord
  | .ifStatement _ _ => some .ifWord
  | .whileStatement _ _ _ => some .whileWord
  | .doStatement _ _ => some .doWord
  | .repeatStatement _ _ _ => some .repeatWord
  | .localStatement _ _ _ => some .localWord
  | .functionStatement (.mk _ isLocal _ _ _) => some (if isLocal then .localWord else .functionWord)
  | .numericFor .. => some .forWord
  | .genericFor .. => some .forWord
  | .structureDeclaration .. => some .hstructureWord
  | .labelStatement .. | .gotoStatement .. | .assignment .. | .callStatement .. => none

namespace Writing

/-- A statement that is neither a label nor empty begins with its keyword, with a name, with a
parenthesis or with `goto`. -/
theorem ProperStatement.begins {v : Statement} (h : ProperStatement dialect inner v p q) :
    (∃ word, p.Faces (.word word) ∧ v.keyword? = some word) ∨ v.keyword? = none ∧
      (p.Faces ReservedWord.gotoWord ∨ (∃ name, p.token.value = .identifier name) ∨
        p.Faces Symbol.leftParen) := by
  cases h with
  | breakStatement h => exact .inl ⟨_, h, rfl⟩
  | gotoStatement h =>
    exact .inr ⟨rfl, h.imp_right fun h => .inl (Token.value_of_kind (Token.kind_of_name h.2.1))⟩
  | returnStatement h => exact .inl ⟨_, h, rfl⟩
  | ifStatement h => exact .inl ⟨_, h, rfl⟩
  | whileStatement h => exact .inl ⟨_, h, rfl⟩
  | doStatement h => exact .inl ⟨_, h, rfl⟩
  | repeatStatement h => exact .inl ⟨_, h, rfl⟩
  | localFunction h => exact .inl ⟨_, h, rfl⟩
  | localVariables h => exact .inl ⟨_, h, rfl⟩
  | assignment _ htargets =>
    obtain ⟨⟨hfirst, -⟩, -⟩ := htargets
    exact .inr ⟨rfl, .inr hfirst.begins⟩
  | callStatement _ hcall => exact .inr ⟨rfl, .inr hcall.begins⟩
  | functionStatement h => exact .inl ⟨_, h, rfl⟩
  | numericFor h => exact .inl ⟨_, h, rfl⟩
  | genericFor h => exact .inl ⟨_, h, rfl⟩
  | structureDeclaration h => exact .inl ⟨_, h, rfl⟩

/-- A statement that is neither a label nor empty does not begin like one. -/
theorem ProperStatement.not_faces {v : Statement} (h : ProperStatement dialect inner v p q) :
    ¬ p.Faces Symbol.doubleColon ∧ ¬ p.Faces Symbol.semicolon := by
  rcases h.begins with ⟨word, hword, -⟩ | ⟨-, hgoto | ⟨name, hname⟩ | hleft⟩
  · exact ⟨hword.not_faces nofun, hword.not_faces nofun⟩
  · exact ⟨hgoto.not_faces nofun, hgoto.not_faces nofun⟩
  · rw [Point.Faces, Point.Faces, hname]
    exact ⟨TokenValue.noConfusion, TokenValue.noConfusion⟩
  · exact ⟨hleft.not_faces (by decide), hleft.not_faces (by decide)⟩

/-- A block does not end where a statement begins. -/
theorem ProperStatement.endsBlock_eq {v : Statement} (h : ProperStatement dialect inner v p q) :
    Grammar.endsBlock p.token = false := by
  rcases h.begins with ⟨word, hword, hkeyword⟩ | ⟨-, hgoto | ⟨name, hname⟩ | hleft⟩
  · rw [Grammar.endsBlock, show p.token.value = _ from hword]
    cases v with
    | functionStatement function =>
      obtain ⟨_, isLocal, _, _, _⟩ := function
      cases isLocal <;> cases hkeyword <;> rfl
    | _ => cases hkeyword <;> rfl
  · rw [Grammar.endsBlock, show p.token.value = _ from hgoto]
    rfl
  · rw [Grammar.endsBlock, hname]
  · rw [Grammar.endsBlock, show p.token.value = _ from hleft]
    rfl

/-- Only one kind of statement begins with a given keyword but `goto`. -/
theorem ProperStatement.keyword?_eq {v : Statement} (h : ProperStatement dialect inner v p q)
    {word : ReservedWord} (hword : p.Faces word) (hgoto : word ≠ .gotoWord) : v.keyword? = some word := by
  rcases h.begins with ⟨other, hother, hkeyword⟩ | ⟨-, hother | ⟨name, hname⟩ | hleft⟩
  · have hvalue : (Grammar.Terminal.word other).value = (Grammar.Terminal.word word).value :=
      hother.symm.trans hword
    cases hvalue
    exact hkeyword
  · exact absurd hother (hword.not_faces fun h => hgoto (Grammar.Terminal.word.inj h))
  · exact TokenValue.noConfusion (hname.symm.trans hword)
  · exact absurd hleft (hword.not_faces nofun)

end Writing

end LuaSyntax
