import LuaSyntax.Proofs.Grammar.Sound.Rule

/-!
# What a rule gives

`Rule.Moves` says what a rule has read if it succeeds. `Rule.Gives` says that it does succeed: from
every state that stands at a point it comes to a given point, and what it gives is as it should be. Where
a rule reads a tree that is written between the two points, that is the same tree, up to what is not in
the tokens.

Rules that are built from others give what those make them give, step by step, since at every step one
branch is taken and the tokens say which.
-/

namespace LuaSyntax.Grammar

/-- What a rule gives in front of a point, and where it comes to. -/
def Rule.Gives {α : Type} (dialect : Dialect) (r : Rule α) (flow : Flow) (p : Point) (kind : α → Prop)
    (flow' : Flow) (q : Point) : Prop :=
  ∀ total context s, context.options.dialect = dialect → total < context.turns →
    s.At dialect total flow p →
    ∃ v s', r context s = (.ok v, s') ∧ s'.At dialect total flow' q ∧ kind v

namespace Rule.Gives

variable {dialect : Dialect} {flow flow' mid : Flow} {p q m : Point} {α β : Type} {r a b : Rule α}
  {kind : α → Prop}

/-- One rule and then another read what is written one behind the other. -/
theorem bind {r : Rule β} {f : β → Rule α} {found : β → Prop}
    (h : r.Gives dialect flow p found mid m)
    (hf : ∀ v, found v → (f v).Gives dialect mid m kind flow' q) :
    (r >>= f).Gives dialect flow p kind flow' q := by
  intro total context s hdialect hturns hs
  obtain ⟨v, t, hr, ht, hv⟩ := h total context s hdialect hturns hs
  rw [bind_of_ok hr]
  exact hf v hv total context t hdialect hturns ht

/-- What a rule gives may be said less precisely. -/
theorem mono {kind' : α → Prop} (h : r.Gives dialect flow p kind flow' q)
    (hkind : ∀ v, kind v → kind' v) : r.Gives dialect flow p kind' flow' q := by
  intro total context s hdialect hturns hs
  obtain ⟨v, t, hr, ht, hv⟩ := h total context s hdialect hturns hs
  exact ⟨v, t, hr, ht, hkind v hv⟩

/-- What reads nothing gives a value where it stands. -/
theorem give {v : α} (h : kind v) : (pure v : Rule α).Gives dialect flow p kind flow p :=
  fun _ _ s _ _ hs => ⟨v, s, rfl, hs, h⟩

/-- A choice that is known to be made is made. -/
theorem yes {c : Prop} [Decidable c] (hc : c) (h : a.Gives dialect flow p kind flow' q) :
    (if c then a else b).Gives dialect flow p kind flow' q := by
  rwa [if_pos hc]

/-- A choice that is known not to be made is not. -/
theorem no {c : Prop} [Decidable c] (hc : ¬ c) (h : b.Gives dialect flow p kind flow' q) :
    (if c then a else b).Gives dialect flow p kind flow' q := by
  rwa [if_neg hc]

/-- A rule that only keeps books, and what comes behind it. -/
theorem quiet {r : Rule β} {f : β → Rule α} {found : β → Prop} (h : r.Quiet found)
    (hf : ∀ v, found v → (f v).Gives dialect flow p kind flow' q) :
    (r >>= f).Gives dialect flow p kind flow' q := by
  intro total context s hdialect hturns hs
  obtain ⟨v, scope, log, hr, hv⟩ := h context s
  rw [bind_of_ok hr]
  exact hf v hv total context _ hdialect hturns (hs.put scope log)

/-! ## Looking at tokens -/

/-- A rule may look at a state, whatever it is. -/
theorem read {f : State → Rule α}
    (h : ∀ total s, s.At dialect total flow p → (f s).Gives dialect flow p kind flow' q) :
    (state >>= f).Gives dialect flow p kind flow' q :=
  fun total context s hdialect hturns hs => h total s hs total context s hdialect hturns hs

/-- A rule may look at what the parse was given, whatever that is. -/
theorem context {f : Context → Rule α} (h : ∀ context, (f context).Gives dialect flow p kind flow' q) :
    (Rule.context >>= f).Gives dialect flow p kind flow' q :=
  fun total context s hdialect hturns hs => h context total context s hdialect hturns hs

/-- The token that a rule looks at is the one at its point. -/
theorem current {f : Token → Rule α} (h : (f p.token).Gives dialect flow p kind flow' q) :
    (Rule.current >>= f).Gives dialect flow p kind flow' q := by
  refine read (f := fun s => f s.token) fun total s hs => ?_
  rwa [hs.token]

/-- The features that a rule looks at are those of the dialect. -/
theorem has {feature : Feature} {f : Bool → Rule α}
    (h : (f (dialect.has feature)).Gives dialect flow p kind flow' q) :
    (Rule.has feature >>= f).Gives dialect flow p kind flow' q := by
  intro total context s hdialect hturns hs
  have hhas : Rule.has feature context s = (.ok (dialect.has feature), s) := by
    rw [← hdialect]
    rfl
  rw [bind_of_ok hhas]
  exact h total context s hdialect hturns hs

/-- A terminal is found where the point faces it. -/
theorem at? {terminal : Terminal} {f : Bool → Rule α}
    (h : (f (decide (p.Faces terminal))).Gives dialect flow p kind flow' q) :
    (Rule.at? terminal >>= f).Gives dialect flow p kind flow' q :=
  current (f := fun token => f (token.value == terminal.value)) h

/-- Where a terminal stands the rule for it is chosen. -/
theorem ifAt {terminal : Terminal} (hfaces : p.Faces terminal)
    (h : a.Gives dialect flow p kind flow' q) :
    (Rule.at? terminal >>= fun found => if found = true then a else b).Gives dialect flow p kind
      flow' q :=
  at? (yes (decide_eq_true hfaces) h)

/-- Where a terminal does not stand the other rule is chosen. -/
theorem unlessAt {terminal : Terminal} (hfaces : ¬ p.Faces terminal)
    (h : b.Gives dialect flow p kind flow' q) :
    (Rule.at? terminal >>= fun found => if found = true then a else b).Gives dialect flow p kind
      flow' q :=
  at? (no (by simpa using hfaces) h)

/-! ## Taking tokens -/

/-- A token that is not the end is taken. -/
theorem advance {f : Unit → Rule α} (hend : p.token.isEnd = false)
    (h : (f ()).Gives dialect flow p.step kind flow' q) :
    (Rule.advance >>= f).Gives dialect flow p kind flow' q := by
  intro total context s hdialect hturns hs
  obtain ⟨t, hadvance, ht⟩ := hs.advance context hend
  rw [bind_of_ok hadvance]
  exact h total context t hdialect hturns ht

/-- A terminal that is expected and stands there is taken. -/
theorem expect {terminal : Terminal} {f : Unit → Rule α} (hfaces : p.Faces terminal)
    (h : (f ()).Gives dialect flow p.step kind flow' q) :
    (Rule.expect terminal >>= f).Gives dialect flow p kind flow' q := by
  refine current (f := fun token => (if (token.value == terminal.value) = true then Rule.advance
    else Rule.blame token .spellingExpected [terminal.spelling, token.near]) >>= f) ?_
  rw [if_pos (beq_iff_eq.mpr hfaces)]
  exact advance hfaces.isEnd_eq h

/-- A terminal that stands there is consumed. -/
theorem consume_yes {terminal : Terminal} {f : Bool → Rule α} (hfaces : p.Faces terminal)
    (h : (f true).Gives dialect flow p.step kind flow' q) :
    (Rule.consume terminal >>= f).Gives dialect flow p kind flow' q := by
  refine current (f := fun token => (if (token.value == terminal.value) = true then
    Rule.advance >>= fun _ => pure true else pure false) >>= f) ?_
  rw [if_pos (beq_iff_eq.mpr hfaces), bind_assoc]
  exact advance hfaces.isEnd_eq h

/-- A terminal that does not stand there is not consumed. -/
theorem consume_no {terminal : Terminal} {f : Bool → Rule α} (hfaces : ¬ p.Faces terminal)
    (h : (f false).Gives dialect flow p kind flow' q) :
    (Rule.consume terminal >>= f).Gives dialect flow p kind flow' q := by
  refine current (f := fun token => (if (token.value == terminal.value) = true then
    Rule.advance >>= fun _ => pure true else pure false) >>= f) ?_
  rw [if_neg (mt beq_iff_eq.mp hfaces)]
  exact h

/-- A token that may be there is there. -/
theorem ifConsume {terminal : Terminal} (hfaces : p.Faces terminal)
    (h : a.Gives dialect flow p.step kind flow' q) :
    (Rule.consume terminal >>= fun found => if found = true then a else b).Gives dialect flow p kind
      flow' q :=
  consume_yes hfaces (yes rfl h)

/-- A token that may be there is not there. -/
theorem unlessConsume {terminal : Terminal} (hfaces : ¬ p.Faces terminal)
    (h : b.Gives dialect flow p kind flow' q) :
    (Rule.consume terminal >>= fun found => if found = true then a else b).Gives dialect flow p kind
      flow' q :=
  consume_no hfaces (no Bool.false_ne_true h)

/-- A token is taken if it is there. -/
theorem skip {terminal : Terminal} (h : a.Gives dialect flow (p.skip terminal) kind flow' q) :
    (Rule.consume terminal >>= fun _ => a).Gives dialect flow p kind flow' q := by
  by_cases hfaces : p.Faces terminal
  · rw [Point.skip_of_faces hfaces] at h
    exact consume_yes hfaces h
  · rw [Point.skip_of_not_faces hfaces] at h
    exact consume_no hfaces h

end Rule.Gives

/-! ## Repetition -/

/-- Items of a list that ends where none follows are read turn by turn. -/
theorem Listed.turned {α P : Type} {item : Option α → P → P → Prop} {items : List α} {a b : P}
    (h : Listed item items a b) : Turned (Listed.turn item) items a b := by
  induction h with
  | none hitem => exact .stop hitem
  | some hitem _ ih => exact .more hitem ih

namespace Rule.Gives

variable {dialect : Dialect} {flow : Flow} {p q : Point} {α ι : Type} [Blurred α] {i j : ι}
  {items : List α}

/-- Turns, each of which takes a token if others may follow. There are never more of them than may be
taken, since there are more than tokens. -/
theorem repeated (place : ι → Flow) {turn : Rule (Turn α)}
    {post : Turn α → ι × Point → ι × Point → Prop} (hadvances : turn.TurnAdvances)
    (h : ∀ v i p j q, post v (i, p) (j, q) → turn.Gives dialect (place i) p (Same v) (place j) q)
    (hitems : Turned post items (i, p) (j, q)) :
    (Rule.repeated turn).Gives dialect (place i) p (Same items) (place j) q := by
  intro total context s hdialect hturns hs
  have hfuel : total < context.turns + s.taken := Nat.lt_add_right _ hturns
  show ∃ v s', Rule.turns turn context.turns context s = (.ok v, s') ∧ _
  generalize context.turns = fuel at hfuel
  generalize ha : (i, p) = a at hitems
  generalize hb : (j, q) = b at hitems
  obtain ⟨fuel, rfl⟩ : ∃ fewer, fuel = fewer + 1 := by
    have := hs.taken
    exact ⟨fuel - 1, by omega⟩
  induction hitems generalizing i p s fuel with
  | stop hturn =>
    subst ha hb
    obtain ⟨v, t, hrun, ht, hv⟩ := h _ _ _ _ _ hturn total context s hdialect hturns hs
    cases v with
    | stop => exact ⟨[], t, by rw [Rule.turns, bind_of_ok hrun]; rfl, ht, rfl⟩
    | last => cases hv
    | more => cases hv
  | last hturn =>
    subst ha hb
    obtain ⟨v, t, hrun, ht, hv⟩ := h _ _ _ _ _ hturn total context s hdialect hturns hs
    cases v with
    | stop => cases hv
    | last item =>
      exact ⟨[item], t, by rw [Rule.turns, bind_of_ok hrun]; rfl, ht,
        same_cons.mpr ⟨same_last.mp hv, rfl⟩⟩
    | more => cases hv
  | @more item rest a b c hturn _ ih =>
    subst ha hb
    obtain ⟨v, t, hrun, ht, hv⟩ := h _ _ _ b.1 b.2 hturn total context s hdialect hturns hs
    cases v with
    | stop => cases hv
    | last => cases hv
    | more item' =>
      have hprogress := hadvances context s item' t hrun
      have hmore : total < fuel + t.taken := by omega
      obtain ⟨fuel, rfl⟩ : ∃ fewer, fuel = fewer + 1 := by
        have := ht.taken
        exact ⟨fuel - 1, by omega⟩
      obtain ⟨items', u, hrest, hu, hitems'⟩ := ih t ht rfl rfl fuel hmore
      refine ⟨item' :: items', u, ?_, hu, same_cons.mpr ⟨same_more.mp hv, hitems'⟩⟩
      rw [Rule.turns, bind_of_ok hrun]
      show (Rule.turns turn (fuel + 1) >>= _) context t = _
      rw [bind_of_ok hrest]
      rfl

/-- Turns that leave the record of jumps as it was. -/
theorem repeatedReads {turn : Rule (Turn α)} {post : Turn α → Point → Point → Prop}
    (hadvances : turn.TurnAdvances)
    (h : ∀ v p q, post v p q → turn.Gives dialect flow p (Same v) flow q)
    (hitems : Turned post items p q) :
    (Rule.repeated turn).Gives dialect flow p (Same items) flow q := by
  have hpairs : Turned (fun v (a b : Unit × Point) => post v a.2 b.2) items ((), p) ((), q) :=
    hitems.map (((), ·)) fun _ _ _ hturn => hturn
  exact repeated (fun _ => flow) hadvances (fun v _ p _ q hv => h v p q hv) hpairs

/-- Items, each of which takes a token. -/
theorem many (place : ι → Flow) {item : Rule (Option α)}
    {post : Option α → ι × Point → ι × Point → Prop} (hadvances : item.ItemAdvances)
    (h : ∀ v i p j q, post v (i, p) (j, q) → item.Gives dialect (place i) p (Same v) (place j) q)
    (hitems : Listed post items (i, p) (j, q)) :
    (Rule.many item).Gives dialect (place i) p (Same items) (place j) q := by
  refine repeated place hadvances.turn (fun v i p j q hv => ?_) hitems.turned
  cases v with
  | stop =>
    refine (h none i p j q hv).bind fun found hfound => ?_
    cases found with
    | none => exact give rfl
    | some => exact absurd hfound not_same_none_some
  | last => exact hv.elim
  | more item =>
    refine (h (some item) i p j q hv).bind fun found hfound => ?_
    cases found with
    | none => exact absurd hfound not_same_some_none
    | some => exact give (same_more.mpr (same_some.mp hfound))

/-- Items that leave the record of jumps as it was. -/
theorem manyReads {item : Rule (Option α)} {post : Option α → Point → Point → Prop}
    (hadvances : item.ItemAdvances)
    (h : ∀ v p q, post v p q → item.Gives dialect flow p (Same v) flow q)
    (hitems : Listed post items p q) :
    (Rule.many item).Gives dialect flow p (Same items) flow q := by
  have hpairs : Listed (fun v (a b : Unit × Point) => post v a.2 b.2) items ((), p) ((), q) :=
    hitems.map (((), ·)) fun _ _ _ hitem => hitem
  exact many (fun _ => flow) hadvances (fun v _ p _ q hv => h v p q hv) hpairs

/-- Steps, each of which takes a token. -/
theorem iterated {step : α → Rule (Option α)} {next : α × Point → α × Point → Prop}
    {stop : Point → Prop} {value value' last : α} (hadvances : ∀ value, (step value).ItemAdvances)
    (h : ∀ value value' p v q, Same value value' → StepRead next stop value p v q →
      (step value').Gives dialect flow p (Same v) flow q)
    (hvalue : Same value value') (hsteps : Relation.ReflTransGen next (value, p) (last, q))
    (hstop : stop q) : (Rule.iterated step value').Gives dialect flow p (Same last) flow q := by
  intro total context s hdialect hturns hs
  have hfuel : total < context.turns + s.taken := Nat.lt_add_right _ hturns
  show ∃ v s', Rule.steps step context.turns value' context s = (.ok v, s') ∧ _
  generalize context.turns = fuel at hfuel
  generalize ha : (value, p) = a at hsteps
  obtain ⟨fuel, rfl⟩ : ∃ fewer, fuel = fewer + 1 := by
    have := hs.taken
    exact ⟨fuel - 1, by omega⟩
  induction hsteps using Relation.ReflTransGen.head_induction_on generalizing value value' p s fuel with
  | refl =>
    obtain ⟨rfl, rfl⟩ := Prod.mk.inj ha
    obtain ⟨v, t, hrun, ht, hv⟩ := h value value' p none p hvalue ⟨rfl, hstop⟩ total context s hdialect
      hturns hs
    cases v with
    | none => exact ⟨value', t, by rw [Rule.steps, bind_of_ok hrun]; rfl, ht, hvalue⟩
    | some => exact absurd hv not_same_none_some
  | @head a b hstep _ ih =>
    subst ha
    obtain ⟨v, t, hrun, ht, hv⟩ := h value value' p (some b.1) b.2 hvalue hstep total context s hdialect
      hturns hs
    cases v with
    | none => exact absurd hv not_same_some_none
    | some next' =>
      have hprogress := hadvances value' context s next' t hrun
      have hmore : total < fuel + t.taken := by omega
      obtain ⟨fuel, rfl⟩ : ∃ fewer, fuel = fewer + 1 := by
        have := ht.taken
        exact ⟨fuel - 1, by omega⟩
      obtain ⟨last', u, hrest, hu, hlast⟩ := ih (same_some.mp hv) t ht rfl fuel hmore
      exact ⟨last', u, by rw [Rule.steps, bind_of_ok hrun]; exact hrest, hu, hlast⟩

end Rule.Gives

end LuaSyntax.Grammar
