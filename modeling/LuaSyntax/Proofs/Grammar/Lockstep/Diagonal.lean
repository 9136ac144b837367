import LuaSyntax.Proofs.Grammar.Lockstep.Leaf

/-!
# A parse beside itself

A parse paired with itself says what rules leave alone. If a property of states does not depend on
the books and survives the taking of a token, it survives every stable rule that succeeds. One such
property is that a number of tokens was taken; from it comes that repetitions make progress.
-/

namespace LuaSyntax.Grammar

open Rule

variable {α β : Type} {Q : State → Prop}

/-- A property of states that rules may change only by taking a token, and then preserve. -/
class Closed (Q : State → Prop) : Prop where
  put : ∀ {s : State}, Q s → ∀ (scope : Scope) (log : List Event) (jumps : Jumps),
    Q (s.put scope log jumps)
  settle : ∀ {s : State}, Q s → s.token.isEnd = true → Q { s with previous := s.token }
  advance : ∀ {context : Context} {s s' : State}, Q s → Rule.advance context s = (.ok (), s') → Q s'

/-- A parse and the same parse with other books. -/
def Pairing.diagonal (context : Context) (Q : State → Prop) : Pairing where
  left := context
  right := context
  Related s t := Q s ∧ t = s.put t.scope t.log t.jumps ∧ Same s.jumps t.jumps
  Escaped _ := False
  Lenient := False

instance (context : Context) (Q : State → Prop) [Closed Q] : (Pairing.diagonal context Q).Sound where
  dialect_eq := rfl
  turns := .inl rfl
  alike := by
    rintro s t ⟨-, ht, hjumps⟩
    rw [ht]
    exact ⟨.refl _, .refl _, hjumps⟩
  line := by
    rintro s t ⟨-, ht, -⟩ -
    rw [ht]
    rfl
  ahead := by
    rintro s t ⟨-, ht, -⟩
    rw [ht]
    exact .inl (.refl _)
  put := by
    rintro s t ⟨hs, ht, -⟩ scope scope' log log' jumps jumps' hjumps
    refine ⟨Closed.put hs scope log jumps, ?_, hjumps⟩
    rw [ht]
    rfl
  settle := by
    rintro s t ⟨hs, ht, hjumps⟩ hend
    refine ⟨Closed.settle hs hend, ?_, hjumps⟩
    rw [ht]
    rfl
  advance := by
    rintro s t ⟨hs, ht, hjumps⟩
    rw [ht]
    simp only [Pairing.diagonal, Rule.advance, State.put]
    cases hfeed : s.feed.next with
    | error error => exact .failed
    | ok found =>
      have hnext : Rule.advance context s = (.ok (), shift s found.1 found.2) := by
        simp only [Rule.advance, hfeed]
      exact .both trivial ⟨Closed.advance hs hnext, rfl, hjumps⟩
  escaped_put h := h.elim
  escaped_settle h := h.elim
  escaped_advance h := h.elim

/-- What is closed is kept by rules that are stable beside themselves. -/
theorem Pairing.Stable.keeps {V : α → α → Prop} {r : Rule α}
    (h : ∀ context, (Pairing.diagonal context Q).Stable V r r) : r.Keeps Q := by
  intro context s v s' hs hrun
  have hmeet := (h context).meet s s ⟨hs, rfl, .refl _⟩
  simp only [Pairing.diagonal, hrun] at hmeet
  cases hmeet with
  | both _ hrelated => exact hrelated.1
  | escaped he => exact he.elim

/-! ## Counting tokens -/

/-- At least that many tokens were taken. -/
def State.Past (count : Nat) (s : State) : Prop := count ≤ s.taken

instance (count : Nat) : Closed (State.Past count) where
  put h _ _ _ := h
  settle h _ := h
  advance := by
    intro context s s' hs hrun
    obtain ⟨delivery, feed, -, rfl⟩ := advance_eq_ok.mp hrun
    exact Nat.le_succ_of_le hs

namespace Rule

/-- A rule that takes a token if it succeeds. -/
def Takes (r : Rule α) : Prop := ∀ count, r.Leads (State.Past count) fun _ => State.Past (count + 1)

/-- A rule that gives back no token that was taken. -/
def Steady (r : Rule α) : Prop := ∀ count, r.Keeps (State.Past count)

/-- A rule that takes a token takes none back. -/
theorem Takes.steady {r : Rule α} (h : r.Takes) : r.Steady := fun count =>
  (h count).mono (fun _ hs => hs) fun _ _ hs => Nat.le_of_succ_le hs

/-- A token that was taken stays taken. -/
theorem Takes.bind {r : Rule α} {f : α → Rule β} (h : r.Takes) (hf : ∀ v, (f v).Steady) :
    (r >>= f).Takes := fun count => (h count).bind fun v => hf v (count + 1)

/-- A rule takes a token if what comes behind it does. -/
theorem Steady.bind {r : Rule α} {f : α → Rule β} (h : r.Steady) (hf : ∀ v, (f v).Takes) :
    (r >>= f).Takes := fun count => (h count).bind fun v => hf v count

/-- Rules that take nothing back take nothing back one behind the other. -/
theorem Steady.andThen {r : Rule α} {f : α → Rule β} (h : r.Steady) (hf : ∀ v, (f v).Steady) :
    (r >>= f).Steady := fun count => (h count).bind fun v => hf v count

/-- A choice takes nothing back if neither rule does. -/
theorem Steady.ite {c : Bool} {r q : Rule α} (ht : r.Steady) (hf : q.Steady) :
    (if c = true then r else q).Steady := fun count => .ite (fun _ => ht count) fun _ => hf count

/-- To look at a state does not take a token back. -/
theorem Takes.read {f : State → Rule α} (h : ∀ s, (f s).Takes) : (state >>= f).Takes :=
  fun count context s => h s count context s

/-- A choice takes a token if both rules do. -/
theorem Takes.ite {c : Bool} {r q : Rule α} (ht : r.Takes) (hf : q.Takes) :
    (if c = true then r else q).Takes := fun count =>
  .ite (fun _ => ht count) fun _ => hf count

/-- A rule that fails takes a token whenever it gives a value, which it never does. -/
theorem Takes.of_fails {r : Rule α} (h : ∀ context s, ∃ error, r context s = (.error error, s)) :
    r.Takes := fun _ => .of_fails fun context s => (h context s).imp fun _ h => ⟨s, h⟩

/-- A rule that keeps every pair of equal states together takes nothing back. -/
theorem Steady.of_stable {V : α → α → Prop} {r : Rule α}
    (h : ∀ context count, (Pairing.diagonal context (State.Past count)).Stable V r r) : r.Steady :=
  fun count => Pairing.Stable.keeps fun context => h context count

/-- To take a token is to take one. -/
theorem takes_advance : advance.Takes := by
  intro count context s v s' hs hrun
  obtain ⟨delivery, feed, -, rfl⟩ := advance_eq_ok.mp hrun
  exact Nat.succ_le_succ hs

/-- What reads nothing takes nothing back. -/
theorem steady_give (v : α) : (pure v : Rule α).Steady := fun _ => .give fun _ hs => hs

/-- To look at a token takes nothing back. -/
theorem steady_current : current.Steady := .of_stable fun _ _ => Pairing.stable_current

theorem steady_has (feature : Feature) : (has feature).Steady :=
  .of_stable fun _ _ => Pairing.stable_has feature

theorem steady_mark : mark.Steady := .of_stable fun _ _ => Pairing.stable_mark

theorem steady_placed (start : Place) : (placed start).Steady :=
  .of_stable fun _ _ => Pairing.stable_placed start start

theorem steady_complete (node : Node) : (complete node).Steady :=
  .of_stable fun _ _ => Pairing.stable_complete node node

theorem steady_completed (expression : Expression) : (completed expression).Steady :=
  .of_stable fun _ _ => Pairing.stable_completed (.refl expression)

theorem steady_at? (terminal : Terminal) : (at? terminal).Steady :=
  .of_stable fun _ _ => Pairing.stable_at? terminal

/-- A token is consumed or left, and none is taken back. -/
theorem steady_consume (terminal : Terminal) : (consume terminal).Steady :=
  .of_stable fun _ _ => Pairing.stable_consume terminal

/-- A token that is expected is taken. -/
theorem takes_expect (terminal : Terminal) : (expect terminal).Takes :=
  steady_current.bind fun _ => .ite takes_advance (.of_fails (fails_blame _ _ _))

/-- What is optional may take nothing, but what comes behind it if it is there has progressed. -/
theorem consume_leads {f : Bool → Rule α} {terminal : Terminal} {count : Nat}
    {post : α → State → Prop} (ht : (f true).Leads (State.Past (count + 1)) post)
    (hf : (f false).Leads (State.Past count) post) :
    (consume terminal >>= f).Leads (State.Past count) post := by
  have hconsume : (consume terminal).Leads (State.Past count)
      fun found s => if found then State.Past (count + 1) s else State.Past count s :=
    (steady_at? terminal count).bind fun _ => .ite
      (fun _ => (takes_advance count).bind fun _ => .give fun _ hs => hs)
      fun _ => .give fun _ hs => hs
  refine hconsume.bind fun found => ?_
  cases found
  · exact hf
  · exact ht

/-- A token is taken whether or not one was consumed, if the rule behind takes one where none was. -/
theorem Takes.consume {f : Bool → Rule α} {terminal : Terminal} (ht : (f true).Steady)
    (hf : (f false).Takes) : (consume terminal >>= f).Takes := fun count =>
  consume_leads (ht (count + 1)) (hf count)

end Rule

/-- A name takes a token. -/
theorem takes_identifier : identifier.Takes := by
  refine steady_mark.bind fun start => steady_current.bind fun token => ?_
  cases token.name? with
  | none => exact .of_fails (fun _ _ => ⟨_, rfl⟩)
  | some name =>
    exact takes_advance.bind fun _ => (steady_placed start).andThen fun _ =>
      (steady_complete _).andThen fun _ => steady_give _

/-- To make a member takes nothing back. -/
theorem steady_member (base : Expression) (indexer : Indexer) (name : Identifier) (start : Place) :
    (member base indexer name start).Steady :=
  (steady_placed start).andThen fun _ => steady_completed _

/-- A name that is resolved takes a token. -/
theorem takes_resolved : resolved.Takes :=
  takes_identifier.bind fun _ => fun count context s v s' hs hrun => by
    cases hrun
    exact hs

/-- A literal takes a token. -/
theorem takes_literal : literal.Takes := by
  refine steady_mark.bind fun start => steady_current.bind fun token => ?_
  cases literalValue? token.value with
  | none => exact .of_fails fails_refuse
  | some value =>
    exact takes_advance.bind fun _ => (steady_placed start).andThen fun _ =>
      (steady_complete _).andThen fun _ => steady_give _

end LuaSyntax.Grammar
