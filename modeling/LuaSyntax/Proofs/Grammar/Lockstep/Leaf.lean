import LuaSyntax.Grammar.Leaf
import LuaSyntax.Proofs.Grammar.Nodes
import LuaSyntax.Proofs.Grammar.Repetition

/-!
# Taking tokens, keeping books and leaves, side by side

The rules that every other rule is made of are stable under every sound pairing. Marks, placements
and closed scopes are not compared; names, literals and tokens are.
-/

namespace LuaSyntax

/-- Declaring a name does not change how it is spelled. -/
theorem Scope.same_declare (scope : Scope) (name : Identifier) :
    Same (scope.declare name).1 name := by
  rw [same_identifier, Scope.declare]
  split <;> rfl

/-- Resolving a name does not change how it is spelled. -/
theorem Scope.same_resolve (scope : Scope) (name : Identifier) :
    Same (scope.resolve name).2.1 name := by
  rw [same_identifier, Scope.resolve]
  split
  · split
    · rfl
    · split <;> rfl
  · rfl

namespace Grammar

open Rule

/-! ## Rules that fail, and rules that keep books -/

/-- To blame a token is to fail where one stands. -/
theorem Rule.fails_blame {α : Type} (token : Token) (message : Message) (arguments : List String) :
    ∀ context s, ∃ error, (blame token message arguments : Rule α) context s = (.error error, s) :=
  fun _ _ => ⟨_, rfl⟩

/-- To refuse the current token is to fail where one stands. -/
theorem Rule.fails_refuse {α : Type} :
    ∀ context s, ∃ error, (refuse : Rule α) context s = (.error error, s) := by
  intro context s
  simp only [refuse, current, state, Bind.bind, Pure.pure, andThen, give]
  split <;> exact ⟨_, rfl⟩

/-- To open a scope takes no token and does not fail. -/
theorem Rule.quiet_openScope : openScope.Quiet fun _ => True := by
  intro context s
  simp only [openScope, state, tell, Bind.bind, Pure.pure, andThen]
  split
  · exact ⟨_, s.scope.push, _, rfl, trivial⟩
  · exact ⟨_, s.scope, s.log, rfl, trivial⟩

/-- To close a scope takes no token and does not fail. -/
theorem Rule.quiet_closeScope : closeScope.Quiet fun _ => True := by
  intro context s
  simp only [closeScope, state, modify, tell, Bind.bind, Pure.pure, andThen]
  split
  · exact ⟨_, s.scope.pop.2, _, rfl, trivial⟩
  · exact ⟨_, s.scope.pop.2, s.log, rfl, trivial⟩

/-- To declare a bare name takes no token and does not fail. -/
theorem Rule.quiet_declareName (name : String) : (declareName name).Quiet fun _ => True := by
  intro context s
  simp only [declareName, state, modify, tell, Bind.bind, Pure.pure, andThen]
  split
  · exact ⟨_, s.scope.declareName name, _, rfl, trivial⟩
  · exact ⟨_, s.scope.declareName name, s.log, rfl, trivial⟩

/-- To declare a name takes no token and gives the name, local or not. -/
theorem Rule.quiet_declare (name : Identifier) : (declare name).Quiet (Same name) := by
  intro context s
  have hsame := (Scope.same_declare s.scope name).symm
  simp only [declare, state, modify, tell, Bind.bind, Pure.pure, andThen]
  split
  · exact ⟨_, (s.scope.declare name).2, _, rfl, hsame⟩
  · exact ⟨_, (s.scope.declare name).2, s.log, rfl, hsame⟩

/-! ## Leaves that are there -/

/-- Where a name stands it is taken, placed and told of. -/
theorem identifier_of_name {context : Context} {s : State} {name : String}
    (h : s.token.name? = some name) : identifier context s = (advance >>= fun _ =>
      placed s.token.start >>= fun placement => complete (.identifier { name, placement }) >>= fun _ =>
        pure { name, placement } : Rule Identifier) context s := by
  simp only [identifier, mark, current, state, Bind.bind, Pure.pure, andThen, give, h]

/-- Where no name stands one is demanded. -/
theorem identifier_of_none {context : Context} {s : State} (h : s.token.name? = none) :
    identifier context s = (demand "<name>" : Rule Identifier) context s := by
  simp only [identifier, mark, current, state, Bind.bind, Pure.pure, andThen, give, h]

/-- Where a literal stands it is taken, placed and told of. -/
theorem literal_of_value {context : Context} {s : State} {value : LiteralValue}
    (h : literalValue? s.token.value = some value) : literal context s = (advance >>= fun _ =>
      placed s.token.start >>= fun placement =>
        complete (.literal ⟨value, s.token.lexeme, placement⟩) >>= fun _ =>
          pure ⟨value, s.token.lexeme, placement⟩ : Rule Literal) context s := by
  simp only [literal, mark, current, state, Bind.bind, Pure.pure, andThen, give, h]

/-- Where no literal stands the token is refused. -/
theorem literal_of_none {context : Context} {s : State} (h : literalValue? s.token.value = none) :
    literal context s = (refuse : Rule Literal) context s := by
  simp only [literal, mark, current, state, Bind.bind, Pure.pure, andThen, give, h]

namespace Pairing

variable {P : Pairing} {α : Type}

/-- Whatever is blamed, both parses fail. -/
theorem stable_blame {V : α → α → Prop} {token token' : Token} {message message' : Message}
    {arguments arguments' : List String} :
    P.Stable V (blame token message arguments) (blame token' message' arguments') :=
  .of_fails (fails_blame _ _ _) (fails_blame _ _ _)

/-- Both parses refuse their tokens. -/
theorem stable_refuse {V : α → α → Prop} : P.Stable V refuse refuse :=
  .of_fails fails_refuse fails_refuse

theorem stable_demand {V : α → α → Prop} (wanted : String) :
    P.Stable V (demand wanted) (demand wanted) :=
  .of_fails (fun _ _ => ⟨_, rfl⟩) (fun _ _ => ⟨_, rfl⟩)

theorem stable_complain {V : α → α → Prop} (message : Message) :
    P.Stable V (complain message) (complain message) :=
  .of_fails (fun _ _ => ⟨_, rfl⟩) (fun _ _ => ⟨_, rfl⟩)

/-- An outcome of jumps that may end the parse. -/
theorem stable_checked [Blurred α] {x y : Except JumpFault α} (h : Agree x y) :
    P.Stable Same (checked x) (checked y) := by
  cases x with
  | ok v =>
    cases y with
    | ok w => exact .give h
    | error fault => exact h.elim
  | error fault =>
    cases y with
    | ok w => exact h.elim
    | error fault' => exact stable_blame

/-- Nothing is compared of what the parses were given. -/
theorem stable_context : P.Stable Any Rule.context Rule.context where
  escape _ hs := hs
  meet _ _ hst := .both trivial hst

variable [P.Sound]

/-! ## Tokens -/

/-- The tokens that both parses stand at are the same. -/
theorem stable_current : P.Stable Same current current := .read fun _ _ h => .give h.token

/-- Both parses have the same features. -/
theorem stable_has (feature : Feature) : P.Stable Same (has feature) (has feature) where
  escape _ hs := hs
  meet s t hst := by
    refine .both ?_ hst
    simp only [same_bool, ParseOptions.has, Sound.dialect_eq (P := P)]

/-- Both parses take their tokens, or one escapes. -/
theorem stable_advance : P.Stable Same advance advance where
  escape _ hs := Sound.escaped_advance hs
  meet s t hst := by
    have h := Sound.advance hst
    match hx : advance P.left s, hy : advance P.right t with
    | (x, s'), (y, t') =>
      rw [hx, hy] at h
      cases h with
      | both _ hs => exact .both rfl hs
      | failed => exact .failed
      | alone hl => exact .alone hl
      | escaped he => exact .escaped he

/-- A terminal stands in both parses or in neither. -/
theorem stable_at? (terminal : Terminal) : P.Stable Same (at? terminal) (at? terminal) :=
  stable_current.bind fun _ _ h => .give (by rw [h.value_eq])

/-- A terminal is consumed in both parses or in neither. -/
theorem stable_consume (terminal : Terminal) : P.Stable Same (consume terminal) (consume terminal) :=
  (stable_at? terminal).bind fun _ _ h =>
    .ite h (stable_advance.bind fun _ _ _ => .give rfl) (.give rfl)

/-- A terminal that is expected is taken in both parses, or both fail. -/
theorem stable_expect (terminal : Terminal) : P.Stable Same (expect terminal) (expect terminal) :=
  stable_current.bind fun _ _ h => .ite (by rw [h.value_eq]) stable_advance stable_blame

/-! ## Books -/

/-- Where a place is marked may differ. -/
theorem stable_mark : P.Stable Any mark mark :=
  .quiet (Q := fun _ => True) (R := fun _ => True)
    (fun _ s => ⟨_, s.scope, s.log, rfl, trivial⟩) (fun _ s => ⟨_, s.scope, s.log, rfl, trivial⟩)
    fun _ _ _ _ => trivial

/-- How a node is placed may differ. -/
theorem stable_placed (start start' : Place) : P.Stable Any (placed start) (placed start') :=
  .quiet (Q := fun _ => True) (R := fun _ => True)
    (fun _ s => ⟨_, s.scope, s.log, rfl, trivial⟩) (fun _ s => ⟨_, s.scope, s.log, rfl, trivial⟩)
    fun _ _ _ _ => trivial

/-- What is told may differ. -/
theorem stable_complete (node node' : Node) : P.Stable Same (complete node) (complete node') :=
  .quiet (Q := fun _ => True) (R := fun _ => True)
    (fun _ s => ⟨_, s.scope, _, rfl, trivial⟩) (fun _ s => ⟨_, s.scope, _, rfl, trivial⟩)
    fun _ _ _ _ => rfl

/-- Expressions that are the same are completed to the same. -/
theorem stable_completed {expression expression' : Expression} (h : Same expression expression') :
    P.Stable Same (completed expression) (completed expression') :=
  (stable_complete _ _).bind fun _ _ _ => .give h

/-- Scopes are opened side by side. -/
theorem stable_openScope : P.Stable Same openScope openScope :=
  .quiet quiet_openScope quiet_openScope fun _ _ _ _ => rfl

/-- What a closed scope has kept may differ. -/
theorem stable_closeScope : P.Stable Any closeScope closeScope :=
  .quiet quiet_closeScope quiet_closeScope fun _ _ _ _ => trivial

theorem stable_declareName (name : String) :
    P.Stable Same (declareName name) (declareName name) :=
  .quiet (quiet_declareName name) (quiet_declareName name) fun _ _ _ _ => rfl

/-- Names that are the same are declared to the same. -/
theorem stable_declare {name name' : Identifier} (h : Same name name') :
    P.Stable Same (declare name) (declare name') :=
  .quiet (quiet_declare name) (quiet_declare name') fun _ _ hv hw => hv.symm.trans (h.trans hw)

/-- Lists of names that are the same are declared to the same. -/
theorem stable_declareAll {names names' : List Identifier} (h : Same names names') :
    P.Stable Same (declareAll names) (declareAll names') := by
  induction names generalizing names' with
  | nil =>
    match names' with
    | [] => exact .give rfl
    | _ :: _ => exact absurd h not_same_nil_cons
  | cons name rest ih =>
    match names' with
    | [] => exact absurd h not_same_cons_nil
    | name' :: rest' =>
      obtain ⟨hname, hrest⟩ := same_cons.mp h
      exact (stable_declare hname).bind fun _ _ hdeclared => (ih hrest).bind fun _ _ hothers =>
        .give (same_cons.mpr ⟨hdeclared, hothers⟩)

/-- Books of jumps that are the same may be set in both parses. -/
theorem stable_setJumps {jumps jumps' : Jumps} (h : Same jumps jumps') :
    P.Stable Same (setJumps jumps) (setJumps jumps') where
  escape s hs := Sound.escaped_put hs s.scope s.log jumps
  meet s t hst := .both rfl (Sound.put hst s.scope t.scope s.log t.log h)

/-- Blocks are opened side by side. -/
theorem stable_openBlock (isLoop : Bool) : P.Stable Same (openBlock isLoop) (openBlock isLoop) :=
  .read fun _ _ h => stable_setJumps (Jumps.same_push h.jumps isLoop)

/-- Blocks are closed side by side, or both parses fail. -/
theorem stable_closeBlock : P.Stable Same closeBlock closeBlock :=
  .read fun _ _ h => (stable_checked (Jumps.agree_pop h.jumps)).bind fun _ _ hjumps =>
    stable_setJumps hjumps

/-- Both parses may go on, or both fail. -/
theorem stable_goOn : P.Stable Same goOn goOn :=
  .read fun _ _ h => stable_checked (Jumps.agree_checkDeferred h.jumps)

/-- A local is recorded side by side. -/
theorem stable_recordLocal (name : String) :
    P.Stable Same (recordLocal name) (recordLocal name) :=
  .read fun _ _ h => stable_setJumps (Jumps.same_addLocal h.jumps name)

/-! ## Leaves -/

/-- Names are read side by side. -/
theorem stable_identifier : P.Stable Same identifier identifier := by
  refine stable_mark.bindAny fun start start' => stable_current.bind fun token token' h => ?_
  rw [h.name?_eq]
  cases token'.name? with
  | none => exact stable_demand _
  | some name =>
    exact stable_advance.bind fun _ _ _ => (stable_placed start start').bindAny fun _ _ =>
      (stable_complete _ _).bind fun _ _ _ => .give (same_identifier.mpr rfl)

/-- The resolution of a name that was just read. -/
theorem stable_resolution {name name' : Identifier} (h : Same name name') :
    P.Stable Same
      (state >>= fun s => modify (fun state => { state with scope := (s.scope.resolve name).2.2 }) >>=
        fun _ => pure (s.scope.resolve name).2.1)
      (state >>= fun s => modify (fun state => { state with scope := (s.scope.resolve name').2.2 }) >>=
        fun _ => pure (s.scope.resolve name').2.1) :=
  .quiet (Q := Same name) (R := Same name')
    (fun _ s => ⟨_, _, s.log, rfl, (Scope.same_resolve s.scope name).symm⟩)
    (fun _ s => ⟨_, _, s.log, rfl, (Scope.same_resolve s.scope name').symm⟩)
    fun _ _ hv hw => hv.symm.trans (h.trans hw)

/-- Names are read and resolved side by side. -/
theorem stable_resolved : P.Stable Same resolved resolved :=
  stable_identifier.bind fun _ _ h => stable_resolution h

/-- Literals are read side by side. -/
theorem stable_literal : P.Stable Same literal literal := by
  refine stable_mark.bindAny fun start start' => stable_current.bind fun token token' h => ?_
  rw [h.value_eq, h.lexeme_eq]
  cases literalValue? token'.value with
  | none => exact stable_refuse
  | some value =>
    exact stable_advance.bind fun _ _ _ => (stable_placed start start').bindAny fun _ _ =>
      (stable_complete _ _).bind fun _ _ _ => .give rfl

/-- Declared names are read side by side. -/
theorem stable_declarator : P.Stable Same declarator declarator := by
  refine stable_mark.bindAny fun start start' => stable_identifier.bind fun name name' hname =>
    (stable_has _).bind fun has has' hhas => (stable_at? _).bind fun colon colon' hcolon =>
      .ite (by rw [same_bool.mp hhas, same_bool.mp hcolon]) ?_ (.give (same_plain.mpr hname))
  refine stable_advance.bind fun _ _ _ => stable_identifier.bind fun type type' htype =>
    (stable_placed start start').bindAny fun _ _ => (stable_complete _ _).bind fun _ _ _ =>
      .give (same_typed.mpr (same_typedIdentifier.mpr ⟨hname, htype⟩))

/-- Members are the same if their bases and names are. -/
theorem stable_member {base base' : Expression} (hbase : Same base base') (indexer : Indexer)
    {name name' : Identifier} (hname : Same name name') (start start' : Place) :
    P.Stable Same (member base indexer name start) (member base' indexer name' start') :=
  (stable_placed start start').bindAny fun _ _ => stable_completed (same_member hbase indexer hname)

/-- Where a name stands, the rule for names takes it. -/
theorem takesName_identifier : P.TakesName identifier := by
  intro s hs he
  obtain ⟨name, hvalue⟩ := Token.value_of_kind hs
  have hname : s.token.name? = some name := by rw [Token.name?, hvalue]
  rw [identifier_of_name hname]
  exact escaped_bind he fun _ => (stable_placed _ s.token.start).escape.bind fun placement =>
    (stable_complete _ (.identifier { name, placement })).escape.bind fun _ => .give _

/-- Where a name stands, it is taken before it is resolved. -/
theorem takesName_resolved : P.TakesName resolved :=
  takesName_identifier.bind fun name => (stable_resolution (.refl name)).escape

end Pairing

end Grammar

end LuaSyntax
