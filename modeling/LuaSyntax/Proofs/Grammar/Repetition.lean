import LuaSyntax.Proofs.Grammar.Pairing

/-!
# Repetition side by side

Two parses may be given different bounds for their repetitions. Where the bounds are equal there is
nothing to say. Where they are not, a repetition must not come to the smaller one, and it does not if
every turn that others may follow takes a token: there are fewer tokens than turns.
-/

namespace LuaSyntax.Grammar

variable {α : Type}

/-- Whether a turn that others may follow takes a token. -/
def Rule.TurnAdvances (turn : Rule (Turn α)) : Prop :=
  ∀ context (s : State) item s', turn context s = (.ok (.more item), s') → s.taken < s'.taken

/-- Whether an item, if there is one, takes a token. -/
def Rule.ItemAdvances (item : Rule (Option α)) : Prop :=
  ∀ context (s : State) value s', item context s = (.ok (some value), s') → s.taken < s'.taken

/-- A turn that gives the item that it finds takes a token if the item does. -/
theorem Rule.ItemAdvances.turn {item : Rule (Option α)} (h : item.ItemAdvances) :
    TurnAdvances do
      match ← item with
      | some item => return .more item
      | none => return .stop := by
  intro context s v s' hx
  obtain ⟨u, t, hitem, hrest⟩ := bind_eq_ok.mp hx
  match u with
  | none => cases hrest
  | some value =>
    cases hrest
    exact h context s _ _ hitem

namespace Pairing

variable {P : Pairing}

/-- Turns do not bring a parse back if no turn does. -/
theorem Stays.turns {turn : Rule (Turn α)} (h : P.Stays turn) (fuel : Nat) :
    P.Stays (Rule.turns turn fuel) := by
  induction fuel with
  | zero => exact fun _ hs => hs
  | succ fuel ih =>
    refine h.bind fun v => ?_
    match v with
    | .stop => exact .give []
    | .last item => exact .give [item]
    | .more item => exact ih.bind fun _ => .give _

/-- Steps do not bring a parse back if no step does. -/
theorem Stays.steps {step : α → Rule (Option α)} (h : ∀ value, P.Stays (step value)) (fuel : Nat) :
    ∀ value, P.Stays (Rule.steps step fuel value) := by
  induction fuel with
  | zero => exact fun _ _ hs => hs
  | succ fuel ih =>
    intro value
    refine (h value).bind fun v => ?_
    match v with
    | none => exact .give value
    | some next => exact ih next

variable [Blurred α]

/-- Whether repetitions have the same bounds, or make progress. -/
def Paced (P : Pairing) (progress : Prop) : Prop := P.left.turns = P.right.turns ∨ progress

/-- What two bounds must have to do with each other for a repetition from a state. -/
def Enough (P : Pairing) (progress : Prop) (fuel fuel' : Nat) (s : State) : Prop :=
  fuel = fuel' ∨ (progress ∧ fuel ≤ fuel' ∧ P.left.turns ≤ fuel + s.taken ∧
    ∀ s t, P.Related s t → s.taken < P.left.turns)

/-- Where progress is made the turns of both parses are enough. -/
theorem Paced.enough [P.Sound] {progress : Prop} (h : P.Paced progress) (s : State) :
    P.Enough progress P.left.turns P.right.turns s := by
  rcases h with h | h
  · exact .inl h
  · rcases Sound.turns (P := P) with hturns | ⟨hle, hlt⟩
    · exact .inl hturns
    · exact .inr ⟨h, hle, Nat.le_add_right _ _, hlt⟩

namespace Enough

variable {progress : Prop} {fuel fuel' : Nat} {s s' t : State}

/-- The smaller bound is not used up while the parses are related. -/
theorem eq_zero (h : P.Enough progress 0 fuel' s) (hst : P.Related s t) : fuel' = 0 := by
  rcases h with h | ⟨-, -, htaken, hlt⟩
  · exact h.symm
  · have := hlt s t hst
    omega

variable (s') in
/-- A turn that makes progress uses up one of either bound. -/
theorem pred (h : P.Enough progress (fuel + 1) fuel' s) (hs : progress → s.taken < s'.taken) :
    ∃ fuel'', fuel' = fuel'' + 1 ∧ P.Enough progress fuel fuel'' s' := by
  rcases h with rfl | ⟨hp, hle, htaken, hlt⟩
  · exact ⟨fuel, rfl, .inl rfl⟩
  · obtain ⟨fuel'', rfl⟩ := Nat.exists_eq_succ_of_ne_zero (show fuel' ≠ 0 by omega)
    have := hs hp
    exact ⟨fuel'', rfl, .inr ⟨hp, by omega, by omega, hlt⟩⟩

end Enough

namespace Stable

variable {turn turn' : Rule (Turn α)} {step step' : α → Rule (Option α)}

/-- Turns that are read side by side give the same items, as long as there are enough turns. -/
theorem meet_turns (h : P.Stable Same turn turn') {fuel fuel' : Nat} {s t : State}
    (henough : P.Enough turn.TurnAdvances fuel fuel' s) (hst : P.Related s t) :
    P.Meet Same (Rule.turns turn fuel P.left s) (Rule.turns turn' fuel' P.right t) := by
  induction fuel generalizing fuel' s t with
  | zero =>
    obtain rfl := henough.eq_zero hst
    exact .failed
  | succ fuel ih =>
    obtain ⟨fuel'', rfl, -⟩ := henough.pred { s with taken := s.taken + 1 }
      fun _ => Nat.lt_succ_self _
    apply (h.meet s t hst).bind
    · intro v w s' t' hx hy hvw hst'
      match v, w with
      | .stop, .stop => exact .both rfl hst'
      | .last item, .last item' =>
        exact .both (same_cons.mpr ⟨same_last.mp hvw, .refl []⟩) hst'
      | .more item, .more item' =>
        obtain ⟨_, hfuel, hrest⟩ := henough.pred s' fun hp => hp _ _ _ _ hx
        obtain rfl := Nat.succ.inj hfuel
        exact (ih hrest hst').bind
          (fun items items' _ _ _ _ hitems hst'' =>
            .both (same_cons.mpr ⟨same_more.mp hvw, hitems⟩) hst'')
          fun _ _ hs => hs
    · intro v
      match v with
      | .stop => exact .give []
      | .last item => exact .give [item]
      | .more item => exact (h.escape.turns fuel).bind fun _ => .give _

/-- A repetition, if there are enough turns. -/
theorem repeated (h : P.Stable Same turn turn') [P.Sound] (hp : P.Paced turn.TurnAdvances) :
    P.Stable Same (Rule.repeated turn) (Rule.repeated turn') where
  escape := h.escape.turns P.left.turns
  meet s _ hst := h.meet_turns (hp.enough s) hst

/-- Steps that are read side by side lead to the same value, as long as there are enough steps. -/
theorem meet_steps (h : ∀ value value', Same value value' → P.Stable Same (step value) (step' value'))
    {fuel fuel' : Nat} {s t : State} {value value' : α} (hvalue : Same value value')
    (henough : P.Enough (∀ value, (step value).ItemAdvances) fuel fuel' s) (hst : P.Related s t) :
    P.Meet Same (Rule.steps step fuel value P.left s) (Rule.steps step' fuel' value' P.right t) := by
  induction fuel generalizing fuel' s t value value' with
  | zero =>
    obtain rfl := henough.eq_zero hst
    exact .failed
  | succ fuel ih =>
    obtain ⟨fuel'', rfl, -⟩ := henough.pred { s with taken := s.taken + 1 }
      fun _ => Nat.lt_succ_self _
    apply ((h value value' hvalue).meet s t hst).bind
    · intro v w s' t' hx hy hvw hst'
      match v, w with
      | none, none => exact .both hvalue hst'
      | none, some _ => exact absurd hvw not_same_none_some
      | some _, none => exact absurd hvw not_same_some_none
      | some next, some next' =>
        obtain ⟨_, hfuel, hrest⟩ := henough.pred s' fun hp => hp _ _ _ _ _ hx
        obtain rfl := Nat.succ.inj hfuel
        exact ih (same_some.mp hvw) hrest hst'
    · intro v
      match v with
      | none => exact .give value
      | some next => exact .steps (fun value => (h value value (.refl _)).escape) fuel next

/-- Steps from the same value, if there are enough turns. -/
theorem iterated [P.Sound]
    (h : ∀ value value', Same value value' → P.Stable Same (step value) (step' value'))
    (hp : P.Paced (∀ value, (step value).ItemAdvances)) {value value' : α} (hvalue : Same value value') :
    P.Stable Same (Rule.iterated step value) (Rule.iterated step' value') where
  escape := .steps (fun value => (h value value (.refl _)).escape) P.left.turns value
  meet s _ hst := meet_steps h hvalue (hp.enough s) hst

/-- Items until there is none, if every item takes a token. -/
theorem many {item item' : Rule (Option α)} (h : P.Stable Same item item') [P.Sound]
    (hp : P.Paced item.ItemAdvances) :
    P.Stable Same (Rule.many item) (Rule.many item') := by
  exact repeated (h.bindOption (.give rfl) fun _ _ hvw => .give (same_more.mpr hvw))
    (hp.imp_right Rule.ItemAdvances.turn)

end Stable

end Pairing

end LuaSyntax.Grammar
