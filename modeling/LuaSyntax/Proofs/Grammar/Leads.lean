import LuaSyntax.Grammar.Terminal

/-!
# What a rule leads to

`Rule.Leads pre post` says what holds of the value and the state of a rule that succeeds, given what
held of the state before. A rule that fails leads anywhere. The lemmas follow the combinators, so a
rule is taken apart the way it is written.
-/

namespace LuaSyntax.Grammar

/-- The items that a turn gives. -/
def Turn.items {α : Type} : Turn α → List α
  | .stop => []
  | .last item => [item]
  | .more item => [item]

namespace Rule

variable {α β : Type} {r : Rule α} {f : α → Rule β} {pre : State → Prop}
  {post : α → State → Prop}

/-- A row of two rules succeeds if both of them do. -/
theorem bind_eq_ok {context : Context} {s s' : State} {w : β} :
    (r >>= f) context s = (.ok w, s') ↔
      ∃ v t, r context s = (.ok v, t) ∧ f v context t = (.ok w, s') := by
  simp only [Bind.bind, andThen]
  match h : r context s with
  | (.ok v, t) =>
    constructor
    · exact fun hf => ⟨v, t, rfl, hf⟩
    · rintro ⟨_, _, heq, hf⟩
      cases heq
      exact hf
  | (.error error, t) =>
    constructor
    · intro hf
      cases hf
    · rintro ⟨_, _, heq, -⟩
      cases heq

/-- Behind a rule that gives a value comes the next one. -/
theorem bind_of_ok {context : Context} {s t : State} {v : α} (h : r context s = (.ok v, t)) :
    (r >>= f) context s = f v context t := by
  simp only [Bind.bind, andThen, h]

/-- Behind a rule that fails nothing comes. -/
theorem bind_of_error {context : Context} {s t : State} {error : ParseError}
    (h : r context s = (.error error, t)) : (r >>= f) context s = (.error error, t) := by
  simp only [Bind.bind, andThen, h]

/-- How rules are grouped does not matter. -/
theorem bind_assoc {γ : Type} (g : β → Rule γ) :
    r >>= f >>= g = r >>= fun v => f v >>= g := by
  funext context s
  cases hr : r context s with
  | mk x t =>
    cases x with
    | ok v => simp only [Bind.bind, andThen, hr]
    | error error => simp only [Bind.bind, andThen, hr]

/-- A token can be taken if the feed does not fail. -/
theorem advance_eq_ok {context : Context} {s s' : State} :
    advance context s = (.ok (), s') ↔
      ∃ delivery feed, s.feed.next = .ok (delivery, feed) ∧ s' = shift s delivery feed := by
  unfold advance
  cases hfeed : s.feed.next with
  | error error => simp
  | ok found =>
    obtain ⟨delivery, feed⟩ := found
    constructor
    · intro h
      cases h
      exact ⟨delivery, feed, rfl, rfl⟩
    · rintro ⟨_, _, heq, rfl⟩
      cases heq
      rfl

/-- What a rule that succeeds leads to. -/
def Leads (r : Rule α) (pre : State → Prop) (post : α → State → Prop) : Prop :=
  ∀ context s v s', pre s → r context s = (.ok v, s') → post v s'

/-- A rule that always fails. -/
def Fails (r : Rule α) : Prop := ∀ context s, ∃ error t, r context s = (.error error, t)

/-- A repetition at its bound fails. -/
theorem fails_overrun : (overrun : Rule α).Fails := fun _ _ => ⟨_, _, rfl⟩

/-- What comes behind a rule that fails does not keep it from failing. -/
theorem Fails.bind (h : r.Fails) : (r >>= f).Fails := by
  intro context s
  obtain ⟨error, t, hr⟩ := h context s
  exact ⟨error, t, bind_of_error hr⟩

/-- A rule fails if what comes behind it does, whatever it gives. -/
theorem Fails.behind (h : ∀ v, (f v).Fails) : (r >>= f).Fails := by
  intro context s
  cases hr : r context s with
  | mk x t =>
    cases x with
    | ok v =>
      obtain ⟨error, u, hf⟩ := h v context t
      exact ⟨error, u, (bind_of_ok hr).trans hf⟩
    | error error => exact ⟨error, t, bind_of_error hr⟩

/-- What a rule that succeeds does not change. -/
def Keeps (r : Rule α) (pre : State → Prop) : Prop := r.Leads pre fun _ => pre

namespace Leads

/-- One rule leads to where the next goes on. -/
theorem bind {mid : α → State → Prop} {post : β → State → Prop} (h : r.Leads pre mid)
    (hf : ∀ v, (f v).Leads (mid v) post) : (r >>= f).Leads pre post := by
  intro context s w s' hs hrun
  obtain ⟨v, t, hr, hrest⟩ := bind_eq_ok.mp hrun
  exact hf v context t w s' (h context s v t hs hr) hrest

/-- What reads nothing leads to where it is. -/
theorem give {v : α} (h : ∀ s, pre s → post v s) : (pure v : Rule α).Leads pre post := by
  intro context s w s' hs hrun
  cases hrun
  exact h s hs

/-- A rule leads from less and to more. -/
theorem mono {pre' : State → Prop} {post' : α → State → Prop} (h : r.Leads pre post)
    (hpre : ∀ s, pre' s → pre s) (hpost : ∀ v s, post v s → post' v s) : r.Leads pre' post' :=
  fun context s v s' hs hrun => hpost v s' (h context s v s' (hpre s hs) hrun)

/-- A choice leads to where both rules do. -/
theorem ite {c : Bool} {q : Rule α} (ht : c = true → r.Leads pre post)
    (hf : c = false → q.Leads pre post) : (if c = true then r else q).Leads pre post := by
  cases c
  · exact hf rfl
  · exact ht rfl

/-- A rule leads to two things at once. -/
theorem and {post' : α → State → Prop} (h : r.Leads pre post) (h' : r.Leads pre post') :
    r.Leads pre fun v s => post v s ∧ post' v s :=
  fun context s v s' hs hrun => ⟨h context s v s' hs hrun, h' context s v s' hs hrun⟩

/-- What is known of a value apart from the state is known of the rule that is given it. -/
theorem bindKnown {known : α → Prop} {mid : α → State → Prop} {post : β → State → Prop}
    (h : r.Leads pre fun v s => known v ∧ mid v s)
    (hf : ∀ v, known v → (f v).Leads (mid v) post) : (r >>= f).Leads pre post :=
  h.bind fun v context s w s' hs hrun => hf v hs.1 context s w s' hs.2 hrun

/-- What is known apart from the state is known of the rule. -/
theorem of_known {known : Prop} (h : known → r.Leads pre post) :
    r.Leads (fun s => known ∧ pre s) post :=
  fun context s v s' hs hrun => h hs.1 context s v s' hs.2 hrun

/-- A rule that fails leads anywhere. -/
theorem of_fails (h : r.Fails) : r.Leads pre post := by
  intro context s v s' _ hrun
  obtain ⟨error, t, hr⟩ := h context s
  rw [hr] at hrun
  cases hrun

/-! ## Repetition -/

variable {I : List α → State → Prop}

/-- Turns that keep what is known of the items so far lead to what is known of all items. -/
theorem turns {turn : Rule (Turn α)}
    (h : ∀ items, turn.Leads (I items) fun v => I (items ++ v.items)) (fuel : Nat) :
    ∀ items, (Rule.turns turn fuel).Leads (I items) fun more => I (items ++ more) := by
  induction fuel with
  | zero => exact fun items => .of_fails fails_overrun
  | succ fuel ih =>
    intro items
    refine (h items).bind fun v => ?_
    match v with
    | .stop => exact give fun _ hs => hs
    | .last item => exact give fun _ hs => hs
    | .more item =>
      refine (ih (items ++ [item])).bind fun more => give fun s hs => ?_
      rwa [List.append_assoc] at hs

/-- What holds of the items so far, whatever they are, holds of all of them. -/
theorem repeated {turn : Rule (Turn α)}
    (h : ∀ items, turn.Leads (I items) fun v => I (items ++ v.items)) :
    (Rule.repeated turn).Leads (I []) I :=
  fun context => turns h context.turns [] context

/-- Items that keep what is known of those so far lead to what is known of all of them. -/
theorem many {item : Rule (Option α)}
    (h : ∀ items, item.Leads (I items) fun v => I (items ++ v.toList)) :
    (Rule.many item).Leads (I []) I := by
  apply repeated
  intro items
  refine (h items).bind fun v => ?_
  cases v with
  | none => exact give fun _ hs => hs
  | some item => exact give fun _ hs => hs

/-- What is known of each item is known of all of them. -/
theorem many_forall {item : Rule (Option α)} {known : α → Prop}
    (h : item.Leads pre fun v s => (∀ a ∈ v.toList, known a) ∧ pre s) :
    (Rule.many item).Leads pre fun items s => (∀ a ∈ items, known a) ∧ pre s := by
  have hitem (items : List α) : item.Leads (fun s => (∀ a ∈ items, known a) ∧ pre s)
      fun v s => (∀ a ∈ items ++ v.toList, known a) ∧ pre s := by
    apply of_known
    intro hitems
    refine h.mono (fun _ hs => hs) fun v s ⟨hv, hs⟩ => ⟨?_, hs⟩
    exact List.forall_mem_append.mpr ⟨hitems, hv⟩
  exact (many hitem).mono (fun _ hs => ⟨List.forall_mem_nil _, hs⟩) fun _ _ hs => hs

/-- What a step keeps of a value, if it gives another, or leaves it as it is, holds in the end. -/
theorem iterated {step : α → Rule (Option α)} {post : α → State → Prop}
    (h : ∀ value, (step value).Leads (post value) fun v => post (v.getD value)) (value : α) :
    (Rule.iterated step value).Leads (post value) post := by
  have hsteps (fuel : Nat) : ∀ value, (steps step fuel value).Leads (post value) post := by
    induction fuel with
    | zero => exact fun _ => .of_fails fails_overrun
    | succ fuel ih =>
      intro value
      refine (h value).bind fun v => ?_
      cases v with
      | none => exact give fun _ hs => hs
      | some next => exact ih next
  exact fun context => hsteps context.turns value context

end Leads

end Rule

end LuaSyntax.Grammar
