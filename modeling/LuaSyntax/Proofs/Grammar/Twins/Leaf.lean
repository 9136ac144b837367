import LuaSyntax.Grammar.Leaf
import LuaSyntax.Proofs.Grammar.Twins.Rule

/-!
# Books and leaves in twins

Nodes are placed at akin places, and names are declared and resolved alike. The rules that keep such books
find neither gotos nor labels, and neither do names and literals.
-/

namespace LuaSyntax.Grammar

open Rule

/-- A rule that makes a value and a scope of the scope that it finds, and may tell an observer. -/
def Rule.Books {α : Type} (r : Rule α) (result : Scope → α × Scope) : Prop :=
  ∀ context (s : State), ∃ told, r context s =
    (.ok (result s.scope).1, { s with scope := (result s.scope).2, log := told ++ s.log })

/-- To open a scope is to change the scope only, and to tell of it. -/
theorem Rule.books_openScope : openScope.Books fun scope => ((), scope.push) := by
  intro context s
  simp only [openScope, state, tell, Bind.bind, Pure.pure, andThen]
  split
  · exact ⟨[.scopeOpened], rfl⟩
  · next hdisabled =>
    rw [Scope.push, if_neg hdisabled]
    exact ⟨[], rfl⟩

/-- To close a scope is to change the scope only, and to tell of it. -/
theorem Rule.books_closeScope : closeScope.Books Scope.pop := by
  intro context s
  simp only [closeScope, state, modify, tell, Bind.bind, Pure.pure, andThen]
  split
  · exact ⟨[.scopeClosed], rfl⟩
  · exact ⟨[], rfl⟩

/-- To declare a name is to change the scope only, and to tell of it. -/
theorem Rule.books_declare (name : Identifier) : (declare name).Books (Scope.declare · name) := by
  intro context s
  simp only [declare, state, modify, tell, Bind.bind, Pure.pure, andThen]
  split
  · exact ⟨[.declared name.name], rfl⟩
  · exact ⟨[], rfl⟩

/-- To declare a bare name is to change the scope only, and to tell of it. -/
theorem Rule.books_declareName (name : String) :
    (declareName name).Books fun scope => ((), scope.declareName name) := by
  intro context s
  simp only [declareName, state, modify, tell, Bind.bind, Pure.pure, andThen]
  split
  · exact ⟨[.declared name], rfl⟩
  · exact ⟨[], rfl⟩

/-- A declared name whose type stands behind the colon at which the rule stands. -/
def typeBehind (name : Identifier) (start : Place) : Rule Declarator :=
  advance >>= fun _ => identifier >>= fun type => placed start >>= fun placement =>
    complete (.typedIdentifier ⟨name, type, placement⟩) >>= fun _ => pure (.typed ⟨name, type, placement⟩)

namespace Twins

variable {T : Twins} {α : Type} [Erasable α] {name name' : Identifier}

/-! ## Books -/

section

variable [T.Sound]

/-- What books give is akin if the scopes are, and also if all is forgotten that names are resolved for. -/
theorem runs_books {pre : State → Prop} {r r' : Rule α} (result result' : Scope → α × Scope)
    (h : r.Books result) (h' : r'.Books result')
    (hscopes : ∀ scope scope', Akin T.erasure scope scope' →
      Akin T.erasure (result scope).1 (result' scope').1 ∧
        Akin T.erasure (result scope).2 (result' scope').2)
    (hforgets : T.erasure.Forgets → ∀ scope scope', Akin T.erasure (result scope).1 (result' scope').1)
    (hpre : ∀ s scope told, pre s → pre { s with scope, log := told ++ s.log }) :
    T.Runs pre (fun _ => pre) innocent r r' := by
  refine ⟨fun event context s v s' hs hrun => ?_, fun s t hst hs => ?_⟩
  · obtain ⟨told, hr⟩ := h context s
    rw [hr] at hrun
    cases hrun
    exact List.mem_append_right _ hs
  · obtain ⟨told, hr⟩ := h T.left s
    obtain ⟨told', hr'⟩ := h' T.right t
    have hvalue : Akin T.erasure (result s.scope).1 (result' t.scope).1 := by
      by_cases htrack : T.Track
      · exact (hscopes _ _ (hst.scope htrack)).1
      · exact hforgets (Sound.forgets htrack) _ _
    rw [hr, hr']
    exact .both hvalue ⟨hst.feed, hst.coming, hst.previous, hst.token, hst.lookahead, hst.comments,
      fun htrack => (hscopes _ _ (hst.scope htrack)).2, hst.checks, hst.jumps⟩ (hpre s _ told hs)

/-- Rules that change the scope only are stable if they change scopes that are akin to what is akin. -/
theorem stable_books {r r' : Rule α} (result result' : Scope → α × Scope) (h : r.Books result)
    (h' : r'.Books result') (hscopes : ∀ scope scope', Akin T.erasure scope scope' →
      Akin T.erasure (result scope).1 (result' scope').1 ∧
        Akin T.erasure (result scope).2 (result' scope').2)
    (hforgets : T.erasure.Forgets → ∀ scope scope', Akin T.erasure (result scope).1 (result' scope').1) :
    T.Stable r r' :=
  .of_runs fun _ _ => runs_books result result' h h' hscopes hforgets fun _ _ _ hs => hs

theorem stable_complete (node node' : Node) : T.Stable (complete node) (complete node') :=
  stable_books (fun scope => ((), scope)) (fun scope => ((), scope))
    (fun _ _ => ⟨[.completed node], rfl⟩) (fun _ _ => ⟨[.completed node'], rfl⟩)
    (fun _ _ hscopes => ⟨rfl, hscopes⟩) fun _ _ _ => rfl

theorem stable_completed {expression expression' : Expression}
    (h : Akin T.erasure expression expression') :
    T.Stable (completed expression) (completed expression') :=
  (stable_complete _ _).bind fun _ _ _ => .give h

theorem stable_openScope : T.Stable openScope openScope :=
  stable_books _ _ books_openScope books_openScope (fun _ _ hscopes => ⟨rfl, Scope.akin_push hscopes⟩)
    fun _ _ _ => rfl

theorem stable_declareName (name : String) : T.Stable (declareName name) (declareName name) :=
  stable_books _ _ (books_declareName name) (books_declareName name)
    (fun _ _ hscopes => ⟨rfl, Scope.akin_declareName hscopes name⟩) fun _ _ _ => rfl

theorem stable_declare (h : Akin T.erasure name name') : T.Stable (declare name) (declare name') := by
  apply stable_books _ _ (books_declare name) (books_declare name')
  · exact fun _ _ hscopes => Scope.akin_declare hscopes h
  · intro hforgets scope scope'
    obtain ⟨left, hleft⟩ := scope.declare_fst name
    obtain ⟨right, hright⟩ := scope'.declare_fst name'
    rw [hleft, hright]
    exact Scope.akin_of_forgets hforgets h left right

theorem stable_declareAll {names names' : List Identifier} (h : Akin T.erasure names names') :
    T.Stable (declareAll names) (declareAll names') := by
  induction names generalizing names' with
  | nil =>
    cases names' with
    | nil => exact .give rfl
    | cons => exact absurd h not_akin_nil_cons
  | cons name rest ih =>
    cases names' with
    | nil => exact absurd h not_akin_cons_nil
    | cons name' rest' =>
      obtain ⟨hname, hrest⟩ := akin_cons.mp h
      exact (stable_declare hname).bind fun _ _ hdeclared => (ih hrest).bind fun _ _ hothers =>
        .give (akin_cons.mpr ⟨hdeclared, hothers⟩)

theorem stable_closeScope : T.Stable closeScope closeScope :=
  stable_books _ _ books_closeScope books_closeScope (fun _ _ hscopes => Scope.akin_pop hscopes Sound.scope)
    fun hforgets _ _ => hforgets.scope _ _

/-- A node is placed from where it began to where the last token ended. -/
theorem runs_placed {pre : State → Prop} (start : Place) : T.Runs pre
    (fun placement s => pre s ∧
      ∃ stop, placement = .between T.left.options T.left.source start stop)
    innocent (placed start) (placed start) := by
  refine ⟨.of_log fun _ _ => rfl, fun s t hst hs => ?_⟩
  refine .both ?_ hst ⟨hs, _, rfl⟩
  rw [← hst.previous]
  exact Sound.placement start _

theorem stable_placed (start : Place) : T.Stable (placed start) (placed start) :=
  .of_runs fun _ _ => (runs_placed start).mono (fun _ hs => hs) (fun _ _ hs => hs.1) fun _ _ hv => hv

/-! ## Leaves -/

theorem stable_identifier : T.Stable identifier identifier := by
  refine .mark fun start => .current fun token => ?_
  cases token.name? with
  | none => exact .demand _
  | some spelling =>
    exact Stable.advance.bind fun _ _ _ => (stable_placed start).bind fun _ _ hplacement =>
      (stable_complete _ _).bind fun _ _ _ => .give (akin_name spelling hplacement)

theorem stable_resolved : T.Stable resolved resolved := by
  refine stable_identifier.bind fun name name' hname => ?_
  apply stable_books (fun scope => ((scope.resolve name).2.1, (scope.resolve name).2.2))
    (fun scope => ((scope.resolve name').2.1, (scope.resolve name').2.2)) (fun _ _ => ⟨[], rfl⟩)
    (fun _ _ => ⟨[], rfl⟩)
  · exact fun _ _ hscopes => Scope.akin_resolve hscopes hname
  · intro hforgets scope scope'
    obtain ⟨left, hleft⟩ := scope.resolve_name name
    obtain ⟨right, hright⟩ := scope'.resolve_name name'
    show Akin T.erasure (scope.resolve name).2.1 (scope'.resolve name').2.1
    rw [hleft, hright]
    exact Scope.akin_of_forgets hforgets hname left right

theorem stable_literal : T.Stable literal literal := by
  refine .mark fun start => .current fun token => ?_
  cases literalValue? token.value with
  | none => exact .refuse
  | some value =>
    exact Stable.advance.bind fun _ _ _ => (stable_placed start).bind fun _ _ hplacement =>
      (stable_complete _ _).bind fun _ _ _ => .give (akin_literal value token.lexeme hplacement)

omit [T.Sound] in
/-- Who has read a type has told of it. -/
theorem typeBehind_told {start : Place} {declarator : Declarator} {context : Context} {s s' : State}
    (h : typeBehind name start context s = (.ok declarator, s')) :
    ∃ typed, .completed (.typedIdentifier typed) ∈ s'.log := by
  obtain ⟨-, s₁, -, h⟩ := bind_eq_ok.mp h
  obtain ⟨type, s₂, -, h⟩ := bind_eq_ok.mp h
  obtain ⟨placement, s₃, -, h⟩ := bind_eq_ok.mp h
  cases h
  exact ⟨_, List.mem_cons_self⟩

/-- The type behind a name is read where the dialect has types. -/
theorem stable_typeBehind (hname : Akin T.erasure name name') (start : Place) :
    T.Stable (typeBehind name start) (typeBehind name' start) :=
  Stable.advance.bind fun _ _ _ => stable_identifier.bind fun _ _ htype =>
    (stable_placed start).bind fun _ _ hplacement => (stable_complete _ _).bind fun _ _ _ =>
      .give (akin_typed.mpr (akin_typedIdentifier hname htype hplacement))

theorem stable_declarator : T.Stable declarator declarator := by
  refine .mark fun start => stable_identifier.bind fun name name' hname => .of_runs fun since found => ?_
  have hplain : T.Runs (State.Found since found) (fun _ => State.Found since found) innocent
      (pure (Declarator.plain name)) (pure (Declarator.plain name')) :=
    .give (akin_plain.mpr hname) fun _ hs => hs
  have htyped : T.Runs (State.Found since found) (fun _ => State.Found since found) innocent
      (typeBehind name start) (typeBehind name' start) :=
    (stable_typeBehind hname start).runs
  refine ⟨?_, fun s t hst hs => ?_⟩
  · refine Lasting.bind (.of_log fun _ _ => rfl) fun _ => Lasting.bind (.of_log fun _ _ => rfl) fun _ => ?_
    exact .ite htyped.lasting hplain.lasting
  · show T.Meet _ innocent
      ((if T.left.options.has .typedIdentifiers && s.token.value == Terminal.value Symbol.colon then
        typeBehind name start else pure (.plain name)) T.left s)
      ((if T.right.options.has .typedIdentifiers && t.token.value == Terminal.value Symbol.colon then
        typeBehind name' start else pure (.plain name')) T.right t)
    rw [← hst.token]
    rcases Sound.typed (T := T) with heq | ⟨hnone, hexcused, hstrays⟩
    · rw [heq]
      split
      · exact htyped.meet s t hst hs
      · exact hplain.meet s t hst hs
    · simp only [hnone, Bool.false_and, Bool.false_eq_true, if_false]
      split
      · refine .apart ⟨fun error _ _ => hexcused error, fun _ _ hrun => ⟨?_, hexcused⟩⟩
        obtain ⟨typed, hmem⟩ := typeBehind_told hrun
        exact ⟨_, hmem, hstrays typed⟩
      · exact hplain.meet s t hst hs

theorem stable_member {base base' : Expression} (hbase : Akin T.erasure base base') (indexer : Indexer)
    (hname : Akin T.erasure name name') (start : Place) :
    T.Stable (member base indexer name start) (member base' indexer name' start) :=
  (stable_placed start).bind fun _ _ hplacement =>
    stable_completed (akin_member hplacement hbase indexer hname)

end

end Twins

end LuaSyntax.Grammar
