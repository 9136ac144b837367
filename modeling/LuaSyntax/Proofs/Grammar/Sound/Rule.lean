import Mathlib.Logic.Relation
import LuaSyntax.Proofs.Grammar.Quiet
import LuaSyntax.Proofs.Jumps.Shows
import LuaSyntax.Proofs.Tree.WellFormed
import LuaSyntax.Proofs.Writing.Point

/-!
# What a rule has read

A state stands at a point in a row of tokens, with a record of jumps that shows what was read before in
the function. `Rule.Moves` says to where a rule that succeeds has moved and how what it gives is written
between the two points. The tokens of a row are not taken twice nor passed over, so that follows from
the rules that take one.

Most rules leave the record as they found it. That is `Rule.Reads`.
-/

namespace LuaSyntax

/-- What an expression may be there. -/
def Flow.surroundings (dialect : Dialect) (flow : Flow) : Surroundings :=
  { dialect, checksTargets := flow.checksTargets, allowsVararg := flow.allowsVararg }

/-- What a statement may be there. -/
def Flow.situation (dialect : Dialect) (flow : Flow) : Situation :=
  { flow.surroundings dialect with
    inLoop := flow.frames.any Frame.isLoop
    visible := visibleLabels flow.frames }

namespace Grammar

/-- A state that stands at a point. Together with the tokens that are still to come, the tokens that
were taken are always equally many. -/
structure State.At (dialect : Dialect) (total : Nat) (flow : Flow) (p : Point) (s : State) : Prop where
  previous : s.previous = p.previous
  token : s.token = p.token
  lookahead : s.lookahead = p.ahead
  deliveries : s.feed.deliveries.map Delivery.token = p.rest.drop 2
  ending : ∃ last, s.feed.ending = .ok last ∧ last.token = p.last
  taken : s.taken + p.rest.length = total
  jumps : s.jumps.Shows dialect flow

variable {dialect : Dialect} {total : Nat} {flow : Flow} {p q : Point} {s : State}

namespace State.At

/-- Books other than that of the jumps do not matter. -/
theorem put (h : s.At dialect total flow p) (scope : Scope) (log : List Event) :
    (s.put scope log s.jumps).At dialect total flow p :=
  ⟨h.previous, h.token, h.lookahead, h.deliveries, h.ending, h.taken, h.jumps⟩

/-- A state shows another record of jumps if its own is replaced by that. -/
theorem setJumps {flow' : Flow} {jumps : Jumps} (h : s.At dialect total flow p)
    (hjumps : jumps.Shows dialect flow') :
    State.At dialect total flow' p { s with jumps } :=
  ⟨h.previous, h.token, h.lookahead, h.deliveries, h.ending, h.taken, hjumps⟩

/-- A token that does not end the row is taken. -/
theorem advance (context : Context) (h : s.At dialect total flow p)
    (hend : p.token.isEnd = false) :
    ∃ s', Rule.advance context s = (.ok (), s') ∧ s'.At dialect total flow p.step := by
  obtain ⟨last, hending, hlast⟩ := h.ending
  have hlength := congrArg List.length (Point.rest_of_token hend)
  rw [List.length_cons] at hlength
  have htaken := h.taken
  have hdeliveries := h.deliveries
  have hahead : p.step.ahead = (p.rest.drop 2).headD p.last := by
    rw [Point.ahead, Point.step, ← List.drop_one, ← List.drop_one, List.drop_drop]
  have hbehind : p.step.rest.drop 2 = (p.rest.drop 2).drop 1 := by
    rw [Point.step, ← List.drop_one, List.drop_drop, List.drop_drop]
  cases hfeed : s.feed.deliveries with
  | nil =>
    rw [hfeed, List.map_nil] at hdeliveries
    have hnext : s.feed.next = .ok (last, ⟨[], .ok { last with comments := [] }⟩) := by
      rw [Feed.next, hfeed, hending]
      rfl
    refine ⟨_, Rule.advance_eq_ok.mpr ⟨_, _, hnext, rfl⟩, h.token, h.lookahead, ?_, ?_,
      ⟨_, rfl, hlast⟩, ?_, h.jumps⟩
    · rw [hahead, ← hdeliveries]
      exact hlast
    · rw [hbehind, ← hdeliveries]
      rfl
    · show s.taken + 1 + _ = _
      omega
  | cons delivery rest =>
    rw [hfeed, List.map_cons] at hdeliveries
    have hnext : s.feed.next = .ok (delivery, ⟨rest, s.feed.ending⟩) := by
      rw [Feed.next, hfeed]
    refine ⟨_, Rule.advance_eq_ok.mpr ⟨_, _, hnext, rfl⟩, h.token, h.lookahead, ?_, ?_,
      ⟨last, hending, hlast⟩, ?_, h.jumps⟩
    · rw [hahead, ← hdeliveries]
      rfl
    · rw [hbehind, ← hdeliveries]
      rfl
    · show s.taken + 1 + _ = _
      omega

end State.At

/-- Where a rule moves to if it succeeds. -/
def Rule.Moves {α : Type} (dialect : Dialect) (r : Rule α) (flow : Flow) (p : Point)
    (post : α → Flow → Point → Prop) : Prop :=
  ∀ total context s v s', context.options.dialect = dialect → total < context.turns →
    s.At dialect total flow p → r context s = (.ok v, s') →
    ∃ flow' q, p.Reaches q ∧ s'.At dialect total flow' q ∧ post v flow' q

/-- Where a rule moves to that leaves the record of jumps as it was. -/
abbrev Rule.Reads {α : Type} (dialect : Dialect) (r : Rule α) (flow : Flow) (p : Point)
    (post : α → Point → Prop) : Prop :=
  r.Moves dialect flow p fun v flow' q => flow' = flow ∧ post v q

namespace Rule.Moves

variable {α β : Type} {r a b : Rule α} {f : α → Rule β} {post : β → Flow → Point → Prop}

/-- One rule moves to where the next goes on. -/
theorem andThen {mid : α → Flow → Point → Prop} (h : r.Moves dialect flow p mid)
    (hf : ∀ v flow' q, mid v flow' q → (f v).Moves dialect flow' q post) :
    (r >>= f).Moves dialect flow p post := by
  intro total context s w s' hdialect hturns hs hrun
  obtain ⟨v, t, hr, hrest⟩ := bind_eq_ok.mp hrun
  obtain ⟨flow', q, hreaches, ht, hmid⟩ := h total context s v t hdialect hturns hs hr
  obtain ⟨flow'', q', hreaches', hs', hpost⟩ :=
    hf v flow' q hmid total context t w s' hdialect hturns ht hrest
  exact ⟨flow'', q', hreaches.trans hreaches', hs', hpost⟩

/-- A rule that reads moves to where the next goes on, in the same frames. -/
theorem bind {mid : α → Point → Prop} (h : r.Reads dialect flow p mid)
    (hf : ∀ v q, mid v q → (f v).Moves dialect flow q post) :
    (r >>= f).Moves dialect flow p post :=
  h.andThen fun v _ q ⟨hflow, hmid⟩ => hflow ▸ hf v q hmid

/-- A rule moves to whatever is said less precisely. -/
theorem mono {post post' : α → Flow → Point → Prop} (h : r.Moves dialect flow p post)
    (hpost : ∀ v flow' q, post v flow' q → post' v flow' q) : r.Moves dialect flow p post' := by
  intro total context s v s' hdialect hturns hs hrun
  obtain ⟨flow', q, hreaches, hs', hv⟩ := h total context s v s' hdialect hturns hs hrun
  exact ⟨flow', q, hreaches, hs', hpost v flow' q hv⟩

/-- What reads nothing moves nowhere. -/
theorem give {v : α} {post : α → Flow → Point → Prop} (h : post v flow p) :
    (pure v : Rule α).Moves dialect flow p post := by
  intro total context s w s' _ _ hs hrun
  cases hrun
  exact ⟨flow, p, .refl p, hs, h⟩

/-- A rule that fails moves anywhere. -/
theorem of_fails {post : α → Flow → Point → Prop} (h : r.Fails) : r.Moves dialect flow p post := by
  intro total context s v s' _ _ _ hrun
  obtain ⟨error, t, hr⟩ := h context s
  rw [hr] at hrun
  cases hrun

theorem refuse {post : α → Flow → Point → Prop} :
    (Rule.refuse : Rule α).Moves dialect flow p post :=
  of_fails fun context s => (fails_refuse context s).imp fun _ h => ⟨s, h⟩

theorem blame {post : α → Flow → Point → Prop} (token : Token) (message : Message)
    (arguments : List String) :
    (Rule.blame token message arguments : Rule α).Moves dialect flow p post :=
  of_fails fun _ _ => ⟨_, _, rfl⟩

theorem demand {post : α → Flow → Point → Prop} (wanted : String) :
    (Rule.demand wanted : Rule α).Moves dialect flow p post :=
  of_fails fun _ _ => ⟨_, _, rfl⟩

theorem complain {post : α → Flow → Point → Prop} (message : Message) :
    (Rule.complain message : Rule α).Moves dialect flow p post :=
  of_fails fun _ _ => ⟨_, _, rfl⟩

/-- A choice moves to where the rule does that was chosen. -/
theorem choose {c : Prop} [Decidable c] {post : α → Flow → Point → Prop}
    (ht : c → a.Moves dialect flow p post) (hf : ¬ c → b.Moves dialect flow p post) :
    (if c then a else b).Moves dialect flow p post := by
  split
  · next h => exact ht h
  · next h => exact hf h

/-- A choice moves to where both rules do. -/
theorem ite {c : Bool} {post : α → Flow → Point → Prop}
    (ht : c = true → a.Moves dialect flow p post) (hf : c = false → b.Moves dialect flow p post) :
    (if c = true then a else b).Moves dialect flow p post :=
  choose ht fun h => hf (Bool.eq_false_iff.mpr h)

/-- A rule that only keeps books, and what comes behind it. -/
theorem quiet {kind : α → Prop} (h : r.Quiet kind)
    (hf : ∀ v, kind v → (f v).Moves dialect flow p post) : (r >>= f).Moves dialect flow p post := by
  intro total context s w s' hdialect hturns hs hrun
  obtain ⟨v, scope, log, hr, hv⟩ := h context s
  rw [bind_of_ok hr] at hrun
  exact hf v hv total context _ w s' hdialect hturns (hs.put scope log) hrun

/-! ## Looking at tokens -/

/-- What a rule looks at in a state, and goes on with. -/
theorem read {f : State → Rule β}
    (h : ∀ total s, s.At dialect total flow p → (f s).Moves dialect flow p post) :
    (state >>= f).Moves dialect flow p post :=
  fun total context s w s' hdialect hturns hs hrun =>
    h total s hs total context s w s' hdialect hturns hs hrun

/-- A rule may look at what the parse was given. -/
theorem context {f : Context → Rule β} (h : ∀ context, (f context).Moves dialect flow p post) :
    (Rule.context >>= f).Moves dialect flow p post :=
  fun total context s w s' hdialect hturns hs hrun =>
    h context total context s w s' hdialect hturns hs hrun

/-- The token that a rule looks at is the one at its point. -/
theorem current {f : Token → Rule β} (h : (f p.token).Moves dialect flow p post) :
    (Rule.current >>= f).Moves dialect flow p post := by
  refine read (f := fun s => f s.token) fun total s hs => ?_
  rwa [hs.token]

/-- The features that a rule looks at are those of the dialect. -/
theorem has {feature : Feature} {f : Bool → Rule β}
    (h : (f (dialect.has feature)).Moves dialect flow p post) :
    (Rule.has feature >>= f).Moves dialect flow p post := by
  intro total context s w s' hdialect hturns hs hrun
  have hhas : Rule.has feature context s = (.ok (dialect.has feature), s) := by
    rw [← hdialect]
    rfl
  rw [bind_of_ok hhas] at hrun
  exact h total context s w s' hdialect hturns hs hrun

/-- A terminal is found where the point faces it. -/
theorem at? {terminal : Terminal} {f : Bool → Rule β}
    (h : (f (decide (p.Faces terminal))).Moves dialect flow p post) :
    (Rule.at? terminal >>= f).Moves dialect flow p post :=
  current (f := fun token => f (token.value == terminal.value)) h

/-- Whether a terminal stands at a point decides which rule moves. -/
theorem ifAt {terminal : Terminal} {a b : Rule β}
    (ht : p.Faces terminal → a.Moves dialect flow p post)
    (hf : ¬ p.Faces terminal → b.Moves dialect flow p post) :
    (Rule.at? terminal >>= fun found => if found = true then a else b).Moves dialect flow p post :=
  at? (ite (fun h => ht (of_decide_eq_true h)) fun h => hf (of_decide_eq_false h))

/-! ## Taking tokens -/

/-- A token that is not the end is behind the point that a rule moves to. -/
theorem advance {f : Unit → Rule β} (hend : p.token.isEnd = false)
    (h : (f ()).Moves dialect flow p.step post) :
    (Rule.advance >>= f).Moves dialect flow p post := by
  intro total context s w s' hdialect hturns hs hrun
  obtain ⟨t, hadvance, ht⟩ := hs.advance context hend
  rw [bind_of_ok hadvance] at hrun
  obtain ⟨flow', q, hreaches, hs', hpost⟩ := h total context t w s' hdialect hturns ht hrun
  exact ⟨flow', q, (Point.reaches_step hend).trans hreaches, hs', hpost⟩

/-- Behind a terminal that was expected it is known to have stood there. -/
theorem expect {terminal : Terminal} {f : Unit → Rule β}
    (h : p.Faces terminal → (f ()).Moves dialect flow p.step post) :
    (Rule.expect terminal >>= f).Moves dialect flow p post := by
  refine current (f := fun token => (if (token.value == terminal.value) = true then Rule.advance
    else Rule.blame token .spellingExpected [terminal.spelling, token.near]) >>= f) ?_
  by_cases hfaces : p.Faces terminal
  · rw [if_pos (beq_iff_eq.mpr hfaces)]
    exact advance hfaces.isEnd_eq (h hfaces)
  · rw [if_neg (mt beq_iff_eq.mp hfaces)]
    exact of_fails (.bind fun _ _ => ⟨_, _, rfl⟩)

/-- A terminal is consumed exactly if it stands there. -/
theorem consume (terminal : Terminal) : (Rule.consume terminal).Reads dialect flow p fun found q =>
    if found = true then p.Faces terminal ∧ q = p.step else ¬ p.Faces terminal ∧ q = p := by
  refine current (f := fun token => if (token.value == terminal.value) = true then
    Rule.advance >>= fun _ => pure true else pure false) ?_
  by_cases hfaces : p.Faces terminal
  · rw [if_pos (beq_iff_eq.mpr hfaces)]
    exact advance hfaces.isEnd_eq (give ⟨rfl, hfaces, rfl⟩)
  · rw [if_neg (mt beq_iff_eq.mp hfaces)]
    exact give ⟨rfl, hfaces, rfl⟩

/-- A token that may be there is taken. -/
theorem ifConsume {terminal : Terminal} {a b : Rule β}
    (ht : p.Faces terminal → a.Moves dialect flow p.step post)
    (hf : ¬ p.Faces terminal → b.Moves dialect flow p post) :
    (Rule.consume terminal >>= fun found => if found = true then a else b).Moves dialect flow p
      post := by
  refine (consume terminal).bind fun found q hfound => ?_
  cases found with
  | true =>
    obtain ⟨hfaces, rfl⟩ := hfound
    exact ht hfaces
  | false =>
    obtain ⟨hfaces, rfl⟩ := hfound
    exact hf hfaces

/-- A token is taken if it is there, and nothing else depends on that. -/
theorem skip {terminal : Terminal} {a : Rule β}
    (h : a.Moves dialect flow (p.skip terminal) post) :
    (Rule.consume terminal >>= fun _ => a).Moves dialect flow p post := by
  refine (consume terminal).bind fun found q hfound => ?_
  cases found with
  | true =>
    obtain ⟨hfaces, rfl⟩ := hfound
    rwa [Point.skip_of_faces hfaces] at h
  | false =>
    obtain ⟨hfaces, rfl⟩ := hfound
    rwa [Point.skip_of_not_faces hfaces] at h

end Rule.Moves

/-! ## Repetition -/

/-- What the turns of a repetition have read one behind the other. -/
inductive Turned {α P : Type} (turn : Turn α → P → P → Prop) : List α → P → P → Prop where
  | stop {a b : P} : turn .stop a b → Turned turn [] a b
  | last {item : α} {a b : P} : turn (.last item) a b → Turned turn [item] a b
  | more {item : α} {rest : List α} {a b c : P} : turn (.more item) a b → Turned turn rest b c →
      Turned turn (item :: rest) a c

/-- Turns may be looked at through a map of what they move. -/
theorem Turned.map {α P Q : Type} {turn : Turn α → P → P → Prop} {turn' : Turn α → Q → Q → Prop}
    {items : List α} {a b : P} (g : P → Q) (h : ∀ v a b, turn v a b → turn' v (g a) (g b))
    (hitems : Turned turn items a b) : Turned turn' items (g a) (g b) := by
  induction hitems with
  | stop hturn => exact .stop (h _ _ _ hturn)
  | last hturn => exact .last (h _ _ _ hturn)
  | more hturn _ ih => exact .more (h _ _ _ hturn) ih

/-- Items that were read one behind the other, until there was none. -/
inductive Listed {α P : Type} (item : Option α → P → P → Prop) : List α → P → P → Prop where
  | none {a b : P} : item none a b → Listed item [] a b
  | some {value : α} {rest : List α} {a b c : P} : item (some value) a b → Listed item rest b c →
      Listed item (value :: rest) a c

namespace Listed

variable {α P : Type} {item : Option α → P → P → Prop} {items : List α} {a b : P}

/-- Items of a list may be looked at through a map of what they move. -/
theorem map {Q : Type} {item' : Option α → Q → Q → Prop} (g : P → Q)
    (h : ∀ v a b, item v a b → item' v (g a) (g b)) (hitems : Listed item items a b) :
    Listed item' items (g a) (g b) := by
  induction hitems with
  | none hitem => exact .none (h _ _ _ hitem)
  | some hitem _ ih => exact .some (h _ _ _ hitem) ih

/-- What the turns are that give an item each. -/
def turn (item : Option α → P → P → Prop) : Turn α → P → P → Prop
  | .stop => item Option.none
  | .last _ => fun _ _ => False
  | .more value => item (Option.some value)

/-- Turns that end where no item follows are items of a list. -/
theorem of_turned (h : Turned (turn item) items a b) : Listed item items a b := by
  induction h with
  | stop hturn => exact .none hturn
  | last hturn => exact hturn.elim
  | more hturn _ ih => exact .some hturn ih

end Listed

/-- What a step has read that goes on from what was read so far, or stops. -/
def StepRead {α P : Type} (next : α × P → α × P → Prop) (stop : P → Prop) (value : α) (p : P) :
    Option α → P → Prop
  | none, q => q = p ∧ stop p
  | some value', q => next (value, p) (value', q)

namespace Rule.Moves

variable {α ι : Type} {i : ι}

/-- Turns, each of which takes a token if others may follow. -/
theorem repeated (place : ι → Flow) {turn : Rule (Turn α)} {post : Turn α → ι × Point → ι × Point → Prop}
    (hadvances : turn.TurnAdvances)
    (h : ∀ i p, turn.Moves dialect (place i) p fun v flow' q =>
      ∃ j, flow' = place j ∧ post v (i, p) (j, q)) :
    (Rule.repeated turn).Moves dialect (place i) p fun items flow' q =>
      ∃ j, flow' = place j ∧ Turned post items (i, p) (j, q) := by
  intro total context s items s' hdialect hturns hs hrun
  have hfuel : total < context.turns + s.taken := Nat.lt_add_right _ hturns
  replace hrun : Rule.turns turn context.turns context s = (.ok items, s') := hrun
  generalize context.turns = fuel at hfuel hrun
  induction fuel generalizing i p s items with
  | zero =>
    have := hs.taken
    omega
  | succ fuel ih =>
    obtain ⟨v, t, hturn, hrest⟩ := bind_eq_ok.mp hrun
    obtain ⟨flow', q, hreaches, ht, j, rfl, hpost⟩ := h i p total context s v t hdialect hturns hs hturn
    cases v with
    | stop =>
      cases hrest
      exact ⟨_, q, hreaches, ht, j, rfl, .stop hpost⟩
    | last item =>
      cases hrest
      exact ⟨_, q, hreaches, ht, j, rfl, .last hpost⟩
    | more item =>
      obtain ⟨rest, u, hturns', hgive⟩ := bind_eq_ok.mp hrest
      cases hgive
      have hprogress := hadvances context s item t hturn
      obtain ⟨flow'', q', hreaches', hu, k, rfl, hrest⟩ :=
        ih t rest ht (by omega) hturns'
      exact ⟨_, q', hreaches.trans hreaches', hu, k, rfl, .more hpost hrest⟩

/-- Turns that leave the record of jumps as it was. -/
theorem repeatedReads {turn : Rule (Turn α)} {post : Turn α → Point → Point → Prop}
    (hadvances : turn.TurnAdvances)
    (h : ∀ p, turn.Reads dialect flow p fun v q => post v p q) :
    (Rule.repeated turn).Reads dialect flow p fun items q => Turned post items p q := by
  have hturns : (Rule.repeated turn).Moves dialect flow p fun items flow' q =>
      ∃ j : Unit, flow' = flow ∧ Turned (fun v a b => post v a.2 b.2) items ((), p) (j, q) :=
    repeated (fun _ => flow) hadvances fun _ p =>
      (h p).mono fun _ _ _ ⟨hflow, hv⟩ => ⟨(), hflow, hv⟩
  exact hturns.mono fun items flow' q ⟨_, hflow, hitems⟩ =>
    ⟨hflow, hitems.map Prod.snd fun _ _ _ hturn => hturn⟩

/-- Items, each of which takes a token. -/
theorem many (place : ι → Flow) {item : Rule (Option α)}
    {post : Option α → ι × Point → ι × Point → Prop} (hadvances : item.ItemAdvances)
    (h : ∀ i p, item.Moves dialect (place i) p fun v flow' q =>
      ∃ j, flow' = place j ∧ post v (i, p) (j, q)) :
    (Rule.many item).Moves dialect (place i) p fun items flow' q =>
      ∃ j, flow' = place j ∧ Listed post items (i, p) (j, q) := by
  have hturns : (Rule.many item).Moves dialect (place i) p fun items flow' q =>
      ∃ j, flow' = place j ∧ Turned (Listed.turn post) items (i, p) (j, q) :=
    repeated place hadvances.turn fun i p => (h i p).andThen fun v flow' q ⟨j, hflow, hv⟩ => by
      cases v with
      | none => exact give ⟨j, hflow, hv⟩
      | some value => exact give ⟨j, hflow, hv⟩
  exact hturns.mono fun items flow' q ⟨j, hflow, hitems⟩ => ⟨j, hflow, .of_turned hitems⟩

/-- Items that leave the record of jumps as it was. -/
theorem manyReads {item : Rule (Option α)} {post : Option α → Point → Point → Prop}
    (hadvances : item.ItemAdvances) (h : ∀ p, item.Reads dialect flow p fun v q => post v p q) :
    (Rule.many item).Reads dialect flow p fun items q => Listed post items p q := by
  have hitems : (Rule.many item).Moves dialect flow p fun items flow' q =>
      ∃ j : Unit, flow' = flow ∧ Listed (fun v a b => post v a.2 b.2) items ((), p) (j, q) :=
    many (fun _ => flow) hadvances fun _ p =>
      (h p).mono fun _ _ _ ⟨hflow, hv⟩ => ⟨(), hflow, hv⟩
  exact hitems.mono fun items flow' q ⟨_, hflow, hitems⟩ =>
    ⟨hflow, hitems.map Prod.snd fun _ _ _ hitem => hitem⟩

/-- Steps, each of which takes a token. -/
theorem iterated {step : α → Rule (Option α)} {next : α × Point → α × Point → Prop}
    {stop : Point → Prop} {value : α} (hadvances : ∀ value, (step value).ItemAdvances)
    (h : ∀ value p, (step value).Reads dialect flow p fun v q => StepRead next stop value p v q) :
    (Rule.iterated step value).Reads dialect flow p fun v q =>
      Relation.ReflTransGen next (value, p) (v, q) ∧ stop q := by
  intro total context s v s' hdialect hturns hs hrun
  have hfuel : total < context.turns + s.taken := Nat.lt_add_right _ hturns
  replace hrun : Rule.steps step context.turns value context s = (.ok v, s') := hrun
  generalize context.turns = fuel at hfuel hrun
  induction fuel generalizing value p s with
  | zero =>
    have := hs.taken
    omega
  | succ fuel ih =>
    obtain ⟨found, t, hstep, hrest⟩ := bind_eq_ok.mp hrun
    obtain ⟨_, q, hreaches, ht, rfl, hfound⟩ := h value p total context s found t hdialect hturns hs hstep
    cases found with
    | none =>
      cases hrest
      obtain ⟨rfl, hstop⟩ := hfound
      exact ⟨_, q, hreaches, ht, rfl, .refl, hstop⟩
    | some next =>
      have hprogress := hadvances value context s next t hstep
      obtain ⟨_, q', hreaches', hs', rfl, hsteps, hstop⟩ := ih t ht (by omega) hrest
      exact ⟨_, q', hreaches.trans hreaches', hs', rfl, .head hfound hsteps, hstop⟩

end Rule.Moves

end Grammar

end LuaSyntax
