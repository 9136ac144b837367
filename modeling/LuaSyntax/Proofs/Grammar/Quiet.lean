import LuaSyntax.Grammar.Statement
import LuaSyntax.Proofs.Grammar.Lockstep.Leaf

/-!
# Rules that only keep books

Marking and placing nodes, telling an observer, opening and closing scopes, declaring and resolving
names: none of it takes a token, fails or changes the record of jumps. What is known of the values of
such rules is that a name is spelled as before.
-/

namespace LuaSyntax.Grammar

open Rule

variable {α β : Type} {r : Rule α} {f : α → Rule β} {kind : α → Prop} {kind' : β → Prop}

namespace Rule

/-- Quiet rules one behind the other are quiet. -/
theorem Quiet.bind (h : r.Quiet kind) (hf : ∀ v, kind v → (f v).Quiet kind') :
    (r >>= f).Quiet kind' := by
  intro context s
  obtain ⟨v, scope, log, hr, hv⟩ := h context s
  obtain ⟨w, scope', log', hrest, hw⟩ := hf v hv context (s.put scope log s.jumps)
  exact ⟨w, scope', log', (bind_of_ok hr).trans hrest, hw⟩

/-- What reads nothing is quiet. -/
theorem quiet_give {v : α} (h : kind v) : (pure v : Rule α).Quiet kind :=
  fun _ s => ⟨v, s.scope, s.log, rfl, h⟩

/-- To mark a place is quiet. -/
theorem quiet_mark : mark.Quiet fun _ => True := fun _ s => ⟨_, s.scope, s.log, rfl, trivial⟩

/-- To place a node is quiet. -/
theorem quiet_placed (start : Place) : (placed start).Quiet fun _ => True :=
  fun _ s => ⟨_, s.scope, s.log, rfl, trivial⟩

/-- To tell of a node is quiet. -/
theorem quiet_complete (node : Node) : (complete node).Quiet fun _ => True :=
  fun _ s => ⟨_, s.scope, _, rfl, trivial⟩

/-- To complete an expression is quiet, and gives that expression. -/
theorem quiet_completed (expression : Expression) : (completed expression).Quiet (· = expression) :=
  (quiet_complete _).bind fun _ _ => quiet_give rfl

end Rule

/-- A node is completed, which is an expression but for its place. -/
theorem quiet_placedExpression (start : Place) (make : Placement → Expression) :
    (placed start >>= fun placement => completed (make placement)).Quiet fun v =>
      ∃ placement, v = make placement :=
  (quiet_placed start).bind fun placement _ =>
    (quiet_complete _).bind fun _ _ => quiet_give ⟨placement, rfl⟩

/-- To resolve a name is quiet, and gives the name, local or not. -/
theorem quiet_resolution (name : Identifier) :
    (state >>= fun s => modify (fun state => { state with scope := (s.scope.resolve name).2.2 }) >>=
      fun _ => pure (s.scope.resolve name).2.1).Quiet (Same name) :=
  fun _ s => ⟨_, _, s.log, rfl, (Scope.same_resolve s.scope name).symm⟩

/-- To declare names is quiet, and gives the names, local or not. -/
theorem quiet_declareAll (names : List Identifier) : (declareAll names).Quiet (Same names) := by
  induction names with
  | nil => exact quiet_give rfl
  | cons name rest ih =>
    exact (quiet_declare name).bind fun _ hname => ih.bind fun _ hrest =>
      quiet_give (same_cons.mpr ⟨hname, hrest⟩)

/-- To declare variables is quiet, and gives the names, local or not. -/
theorem quiet_declareVariables (names : List Declarator) :
    (declareVariables names).Quiet (Same names) := by
  induction names with
  | nil => exact quiet_give rfl
  | cons name rest ih =>
    refine (quiet_declare name.identifier).bind fun declared hdeclared => ih.bind fun _ hrest =>
      quiet_give (same_cons.mpr ⟨?_, hrest⟩)
    cases name with
    | plain name => exact same_plain.mpr hdeclared
    | typed name => exact same_typed.mpr (same_typedIdentifier.mpr ⟨hdeclared, .refl _⟩)

end LuaSyntax.Grammar
