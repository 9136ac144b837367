import LuaSyntax.Grammar.Bookkeeping
import LuaSyntax.Proofs.Grammar.Jumps
import LuaSyntax.Proofs.Grammar.Leads

/-!
# Two parses side by side

Much of what is to be said of the grammar compares two parses: of the same tokens at other places, of
a beginning and of the whole, or of one parse with itself to say what it leaves alone. A `Pairing`
says when two states have come equally far, and `Pairing.Stable` that a rule keeps it so: from states
that are related both rules fail, or both succeed with related values in related states.

Two provisions make room for parses of a beginning. The first parse may escape, which means that it
has come to where the comparison ends and may do what it likes from there on, provided it does not
come back. And the second parse may be let fail alone.

That a pairing is fit for this is `Pairing.Sound`. It asks about taking a token and about what rules
look at, and nothing about rules. That rules are stable is then proved once, along the combinators
that they are made of.
-/

namespace LuaSyntax.Grammar

open Rule (advance)

/-- A state with other books. -/
def State.put (state : State) (scope : Scope) (log : List Event) (jumps : Jumps) : State :=
  { state with scope, log, jumps }

/-- States that show a rule the same, as far as it looks. -/
structure State.Alike (s t : State) : Prop where
  token : Same s.token t.token
  previous : Same s.previous t.previous
  jumps : Same s.jumps t.jumps

/-- Two parses, and when they have come equally far. -/
structure Pairing where
  left : Context
  right : Context
  Related : State → State → Prop
  /-- When the first parse need not be followed any further. -/
  Escaped : State → Prop
  /-- Whether the second parse may fail alone. -/
  Lenient : Prop

/-- A rule that only keeps books, those of the jumps left alone, and gives a value of some kind. -/
def Rule.Quiet {α : Type} (r : Rule α) (kind : α → Prop) : Prop :=
  ∀ context (s : State), ∃ v scope log, r context s = (.ok v, s.put scope log s.jumps) ∧ kind v

/-- Values of which nothing is asked. -/
def Any {α β : Type} (_ : α) (_ : β) : Prop := True

namespace Pairing

variable {P : Pairing} {α β α' β' : Type}

/-- How two rules may come out. -/
inductive Meet (P : Pairing) (V : α → β → Prop) :
    Except ParseError α × State → Except ParseError β × State → Prop where
  | both {v : α} {w : β} {s t : State} : V v w → P.Related s t → Meet P V (.ok v, s) (.ok w, t)
  | failed {error error' : ParseError} {s t : State} : Meet P V (.error error, s) (.error error', t)
  | alone {v : α} {error : ParseError} {s t : State} :
      P.Lenient → Meet P V (.ok v, s) (.error error, t)
  | escaped {x : Except ParseError α × State} {y : Except ParseError β × State} :
      P.Escaped x.2 → Meet P V x y

/-- Rules that fail meet, wherever they stand. -/
theorem Meet.of_fails {V : α → β → Prop} {r : Rule α} {r' : Rule β} (h : r.Fails) (h' : r'.Fails)
    (s t : State) : P.Meet V (r P.left s) (r' P.right t) := by
  obtain ⟨error, s', hr⟩ := h P.left s
  obtain ⟨error', t', hr'⟩ := h' P.right t
  rw [hr, hr']
  exact .failed

/-- The second parse succeeds with the first, if it may not fail alone. -/
theorem Meet.of_ok {V : α → β → Prop} {x : Except ParseError α × State}
    {y : Except ParseError β × State} {v : α} (h : P.Meet V x y) (hx : x.1 = .ok v)
    (hlenient : ¬ P.Lenient) (hescaped : ¬ P.Escaped x.2) : ∃ w, y.1 = .ok w ∧ V v w := by
  cases h with
  | both hv _ =>
    cases hx
    exact ⟨_, rfl, hv⟩
  | failed => cases hx
  | alone hl => exact absurd hl hlenient
  | escaped he => exact absurd he hescaped

/-- The second parse fails with the first. -/
theorem Meet.of_error {V : α → β → Prop} {x : Except ParseError α × State}
    {y : Except ParseError β × State} {error : ParseError} (h : P.Meet V x y)
    (hx : x.1 = .error error) (hescaped : ¬ P.Escaped x.2) : ∃ error', y.1 = .error error' := by
  cases h with
  | both _ _ => cases hx
  | failed => exact ⟨_, rfl⟩
  | alone _ => cases hx
  | escaped he => exact absurd he hescaped

/-- A rule that does not come back from where the first parse has escaped to. -/
def Stays (P : Pairing) (r : Rule α) : Prop := ∀ s : State, P.Escaped s → P.Escaped (r P.left s).2

/-- Where the first parse has escaped to, it stays in what comes behind. -/
theorem escaped_bind {r : Rule α} {f : α → Rule β} {s : State} (h : P.Escaped (r P.left s).2)
    (hf : ∀ v, P.Stays (f v)) : P.Escaped ((r >>= f) P.left s).2 := by
  simp only [Bind.bind, Rule.andThen]
  cases hx : r P.left s with
  | mk x s' =>
    rw [hx] at h
    cases x with
    | ok v => exact hf v s' h
    | error error => exact h

/-- Rules that do not come back from where a parse escaped may stand one behind the other. -/
theorem Stays.bind {r : Rule α} {f : α → Rule β} (h : P.Stays r) (hf : ∀ v, P.Stays (f v)) :
    P.Stays (r >>= f) := fun s hs => escaped_bind (h s hs) hf

/-- What reads nothing does not bring a parse back. -/
theorem Stays.give (v : α) : P.Stays (pure v) := fun _ hs => hs

/-- To look at a state does not bring a parse back. -/
theorem Stays.read {f : State → Rule α} (h : ∀ s, P.Stays (f s)) : P.Stays (Rule.state >>= f) :=
  fun s hs => h s s hs

/-- A choice does not bring a parse back if neither rule does. -/
theorem Stays.ite {c : Bool} {r q : Rule α} (hr : P.Stays r) (hq : P.Stays q) :
    P.Stays (if c = true then r else q) := by
  cases c
  · exact hq
  · exact hr

/-- Rules that come out so, and what comes behind them. -/
theorem Meet.bind {V : α → β → Prop} {W : α' → β' → Prop} {r : Rule α} {r' : Rule β}
    {f : α → Rule α'} {g : β → Rule β'} {s t : State}
    (h : P.Meet V (r P.left s) (r' P.right t))
    (hboth : ∀ v w s' t', r P.left s = (.ok v, s') → r' P.right t = (.ok w, t') → V v w →
      P.Related s' t' → P.Meet W (f v P.left s') (g w P.right t'))
    (hesc : ∀ v, P.Stays (f v)) :
    P.Meet W ((r >>= f) P.left s) ((r' >>= g) P.right t) := by
  simp only [Bind.bind, Rule.andThen]
  obtain ⟨⟨x, s'⟩, hx⟩ : ∃ outcome, r P.left s = outcome := ⟨_, rfl⟩
  obtain ⟨⟨y, t'⟩, hy⟩ : ∃ outcome, r' P.right t = outcome := ⟨_, rfl⟩
  rw [hx, hy] at h ⊢
  cases h with
  | both hv hs => exact hboth _ _ s' t' hx hy hv hs
  | failed => exact .failed
  | escaped he =>
    apply Meet.escaped
    cases x with
    | ok v => exact hesc v s' he
    | error error => exact he
  | alone hl =>
    -- the second has failed, so nothing matters but that this is allowed
    rename_i v error
    show P.Meet W (f v P.left s') (.error error, t')
    obtain ⟨⟨z, s''⟩, hz⟩ : ∃ outcome, f v P.left s' = outcome := ⟨_, rfl⟩
    rw [hz]
    cases z with
    | ok w => exact .alone hl
    | error error' => exact .failed

/-- Whether a rule that stands at a name takes it, and so takes the first parse away if that is what
comes of it. -/
def TakesName (P : Pairing) (r : Rule α) : Prop := ∀ s : State,
  s.token.kind = .identifier → P.Escaped (advance P.left s).2 → P.Escaped (r P.left s).2

/-- A name that was taken stays taken. -/
theorem TakesName.bind {r : Rule α} {f : α → Rule β} (h : P.TakesName r)
    (hf : ∀ v, P.Stays (f v)) : P.TakesName (r >>= f) := fun s hs he => escaped_bind (h s hs he) hf

/-- A pairing that is fit for comparing parses. -/
class Sound (P : Pairing) : Prop where
  dialect_eq : P.left.options.dialect = P.right.options.dialect
  turns : P.left.turns = P.right.turns ∨
    P.left.turns ≤ P.right.turns ∧ ∀ s t, P.Related s t → s.taken < P.left.turns
  alike : ∀ {s t : State}, P.Related s t → s.Alike t
  /-- Whether a token stands on the line where the one before it ends. -/
  line : ∀ {s t : State}, P.Related s t → s.token.isEnd = false →
    (s.token.start.line != s.previous.stop.line) = (t.token.start.line != t.previous.stop.line)
  ahead : ∀ {s t : State}, P.Related s t →
    Same s.lookahead t.lookahead ∨ P.Escaped (advance P.left s).2
  put : ∀ {s t : State}, P.Related s t → ∀ (scope scope' : Scope) (log log' : List Event)
    {jumps jumps' : Jumps}, Same jumps jumps' →
    P.Related (s.put scope log jumps) (t.put scope' log' jumps')
  settle : ∀ {s t : State}, P.Related s t → s.token.isEnd = true →
    P.Related { s with previous := s.token } { t with previous := t.token }
  advance : ∀ {s t : State}, P.Related s t → P.Meet Any (advance P.left s) (advance P.right t)
  escaped_put : ∀ {s : State}, P.Escaped s → ∀ (scope : Scope) (log : List Event) (jumps : Jumps),
    P.Escaped (s.put scope log jumps)
  escaped_settle : ∀ {s : State}, P.Escaped s → P.Escaped { s with previous := s.token }
  escaped_advance : ∀ {s : State}, P.Escaped s → P.Escaped (Rule.advance P.left s).2

/-- Rules that keep two parses side by side. -/
structure Stable (P : Pairing) (V : α → β → Prop) (r : Rule α) (r' : Rule β) : Prop where
  escape : P.Stays r
  meet : ∀ s t : State, P.Related s t → P.Meet V (r P.left s) (r' P.right t)

namespace Stable

variable {V : α → β → Prop} {W : α' → β' → Prop} {r : Rule α} {r' : Rule β}

/-- Values that are alike may be given in both parses. -/
theorem give {v : α} {w : β} (h : V v w) : P.Stable V (pure v) (pure w) where
  escape _ hs := hs
  meet _ _ hst := .both h hst

/-- Rules that do nothing but fail. -/
theorem of_fails (h : ∀ context s, ∃ error, r context s = (.error error, s))
    (h' : ∀ context s, ∃ error, r' context s = (.error error, s)) : P.Stable V r r' where
  escape s hs := by
    obtain ⟨error, hr⟩ := h P.left s
    rwa [hr]
  meet s t _ := by
    obtain ⟨error, hr⟩ := h P.left s
    obtain ⟨error', hr'⟩ := h' P.right t
    rw [hr, hr']
    exact .failed

/-- One rule and then another, of which nothing is known but that it does not come back from where
the first has escaped to. -/
theorem andThen {f : α → Rule α'} {g : β → Rule β'} (h : P.Stable V r r')
    (hf : ∀ v w, V v w → P.Stable W (f v) (g w))
    (hesc : ∀ v, P.Stays (f v)) : P.Stable W (r >>= f) (r' >>= g) where
  escape := h.escape.bind hesc
  meet s t hst :=
    (h.meet s t hst).bind (fun v w s' t' _ _ hv hs => (hf v w hv).meet s' t' hs) hesc

/-- Rules stand side by side, one behind the other, if they do for all values that are the same. -/
theorem bind [Blurred α] {r r' : Rule α} {f : α → Rule α'} {g : α → Rule β'}
    (h : P.Stable Same r r') (hf : ∀ v w, Same v w → P.Stable W (f v) (g w)) :
    P.Stable W (r >>= f) (r' >>= g) :=
  h.andThen hf fun v => (hf v v (.refl v)).escape

/-- One rule and then another, where the value of the first is nothing to be compared. -/
theorem bindAny {r r' : Rule α} {f : α → Rule α'} {g : α → Rule β'} (h : P.Stable Any r r')
    (hf : ∀ v w, P.Stable W (f v) (g w)) : P.Stable W (r >>= f) (r' >>= g) :=
  h.andThen (fun v w _ => hf v w) fun v => (hf v v).escape

/-- What may be missing is missing in both. -/
theorem bindOption [Blurred α] {r r' : Rule (Option α)} {f : Option α → Rule α'}
    {g : Option α → Rule β'} (h : P.Stable Same r r') (hnone : P.Stable W (f none) (g none))
    (hsome : ∀ v w, Same v w → P.Stable W (f (some v)) (g (some w))) :
    P.Stable W (r >>= f) (r' >>= g) := by
  refine h.bind fun v w hvw => ?_
  match v, w with
  | none, none => exact hnone
  | none, some _ => exact absurd hvw not_same_none_some
  | some _, none => exact absurd hvw not_same_some_none
  | some v, some w => exact hsome v w (same_some.mp hvw)

/-- A choice that is made alike keeps the parses together. -/
theorem ite {c c' : Bool} {q : Rule α} {q' : Rule β} (h : c = c') (ht : P.Stable V r r')
    (hf : P.Stable V q q') :
    P.Stable V (if c = true then r else q) (if c' = true then r' else q') := by
  subst h
  cases c
  · exact hf
  · exact ht

/-- A choice by what the states show. If it may turn out differently, the choices have to come out
the same crosswise. -/
theorem choose (test : Context → State → Bool) {q : Rule α} {q' : Rule β} (hr : P.Stable V r r')
    (hq : P.Stable V q q')
    (h : ∀ s t : State, P.Related s t → test P.left s = test P.right t ∨
      P.Meet V (r P.left s) (q' P.right t) ∧ P.Meet V (q P.left s) (r' P.right t)) :
    P.Stable V (fun context s => (if test context s then r else q) context s)
      (fun context s => (if test context s then r' else q') context s) where
  escape s hs := by
    cases htest : test P.left s <;> simp only [htest, Bool.false_eq_true, if_true, if_false]
    · exact hq.escape s hs
    · exact hr.escape s hs
  meet s t hst := by
    have hboth := h s t hst
    cases htest : test P.left s <;> cases htest' : test P.right t <;>
      simp only [htest, htest', Bool.false_eq_true, Bool.true_eq_false, false_or, if_true, if_false]
        at hboth ⊢
    · exact hq.meet s t hst
    · exact hboth.2
    · exact hboth.1
    · exact hr.meet s t hst

/-- A rule that is only sometimes there, before another. -/
theorem branch {c : Bool} {q q' : Rule Unit} {f : Unit → Rule α'} {g : Unit → Rule β'}
    (h : P.Stable Same q q') (hf : ∀ v w, P.Stable W (f v) (g w)) :
    P.Stable W (if c = true then q >>= f else f ()) (if c = true then q' >>= g else g ()) :=
  .ite rfl (h.bind fun v w _ => hf v w) (hf () ())

variable [P.Sound]

/-- What a rule looks at in a state, and goes on with. -/
theorem read {f : State → Rule α} {g : State → Rule β}
    (h : ∀ s t : State, s.Alike t → P.Stable V (f s) (g t)) :
    P.Stable V (Rule.state >>= f) (Rule.state >>= g) where
  escape s hs := (h s s ⟨.refl _, .refl _, .refl _⟩).escape s hs
  meet s t hst := (h s t (Sound.alike hst)).meet s t hst

/-- Rules that only keep books, jumps excepted. -/
theorem quiet {Q : α → Prop} {R : β → Prop} (h : r.Quiet Q) (h' : r'.Quiet R)
    (hV : ∀ v w, Q v → R w → V v w) : P.Stable V r r' where
  escape s hs := by
    obtain ⟨v, scope, log, hr, -⟩ := h P.left s
    rw [hr]
    exact Sound.escaped_put hs scope log s.jumps
  meet s t hst := by
    obtain ⟨v, scope, log, hr, hv⟩ := h P.left s
    obtain ⟨w, scope', log', hr', hw⟩ := h' P.right t
    rw [hr, hr']
    exact .both (hV v w hv hw) (Sound.put hst scope scope' log log' (Sound.alike hst).jumps)

end Stable

end Pairing

end LuaSyntax.Grammar
