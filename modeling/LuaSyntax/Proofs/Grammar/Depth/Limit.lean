import Mathlib.Logic.Relation
import LuaSyntax.Proofs.Grammar.Bounds.Statement

/-!
# The limit on nesting

A parse with a limit is compared with one that has none. As long as no more is open than the limit allows, the two
do the same; once more is open, the one with the limit has failed. `Rule.Forks` says so of a rule, and it is kept by
all that is made of such rules.

The parse without a limit needs no bound either. A token is taken for each statement and each expression that is
open, and so there are never more open than the feed gives tokens; behind that number of levels it may be cut off
anywhere.

A row of statements, operands, suffixes or list items comes too deep only by one of its items, which is begun where
as much is open as at the beginning of the row. How many items there are before it does not matter.
-/

namespace LuaSyntax

/-- A feed that fails in the end or gives the end of the input. -/
def Feed.Ends (feed : Feed) : Prop := ∀ last, feed.ending = .ok last → last.token.isEnd = true

/-- The end of the input is given behind some tokens, and another token behind it. -/
theorem Feed.gives_end {last : Delivery} (hlast : last.token.isEnd = true) (deliveries : List Delivery) :
    ∃ row last' later, Feed.Gives ⟨deliveries, .ok last⟩ (row ++ [last', later]) ∧
      (∀ delivery ∈ row, delivery.token.isEnd = false) ∧ last'.token.isEnd = true := by
  induction deliveries with
  | nil => exact ⟨[], _, _, ⟨_, rfl, _, rfl, trivial⟩, nofun, hlast⟩
  | cons delivery deliveries ih =>
    cases hend : delivery.token.isEnd with
    | true =>
      obtain ⟨later, rest, hnext⟩ : ∃ later rest, Feed.next ⟨deliveries, .ok last⟩ = .ok (later, rest) := by
        cases deliveries <;> exact ⟨_, _, rfl⟩
      exact ⟨[], _, _, ⟨_, rfl, _, hnext, trivial⟩, nofun, hend⟩
    | false =>
      obtain ⟨row, last', later, hgives, hbefore, hlast'⟩ := ih
      exact ⟨delivery :: row, last', later, ⟨_, rfl, hgives⟩, List.forall_mem_cons.mpr ⟨hend, hbefore⟩, hlast'⟩

namespace Grammar

open Rule

variable {α β : Type} {limit : Option Nat} {fuel more depth room most : Nat} {nested nested' : Nested} {early : Bool}

/-! ## Beside a parse without a limit -/

/-- Where so much is open, a rule does the same as another unless the other comes to have more open than a bound,
and then it fails. -/
structure Rule.Forks (most depth : Nat) (r q : Rule α) : Prop where
  same : ∀ context (s : State), s.depth = depth → s.deepest ≤ most → (q context s).2.deepest ≤ most →
    r context s = q context s
  refused : ∀ context (s : State), s.depth = depth → s.deepest ≤ most → most < (q context s).2.deepest →
    ∃ error, (r context s).1 = .error error ∧ error.message = .tooManyLevels

/-- Rules for what is nested that fork from others. -/
structure Nested.Forks (most depth : Nat) (nested nested' : Nested) : Prop where
  statement : nested.statement.Forks most depth nested'.statement
  expression : ∀ level, (nested.expression level).Forks most depth (nested'.expression level)

namespace Rule.Forks

variable {r q : Rule α} {f g : α → Rule β}

/-- A rule that keeps out of counting forks from itself, since it opens nothing. -/
theorem of_aloof (h : r.Aloof) : r.Forks most depth r where
  same _ _ _ _ _ := rfl
  refused context s _ hs hmost := by
    rw [(h.kept context s).2] at hmost
    exact absurd hs (Nat.not_le_of_lt hmost)

/-- Rules that fork may stand one behind the other, if the others close what they open. -/
theorem bind (h : r.Forks most depth q) (hq : q.Restores) (hf : ∀ v, (f v).Forks most depth (g v))
    (hg : ∀ v, (g v).Restores) : (r >>= f).Forks most depth (q >>= g) where
  same context s hs hdeepest hmost := by
    have hsame := h.same context s hs hdeepest
    have hdepth := (hq.depth context s).trans hs
    match hrun : q context s with
    | (.ok v, t) =>
      rw [hrun] at hsame hdepth
      rw [bind_of_ok hrun] at hmost ⊢
      rw [bind_of_ok (hsame (Nat.le_trans ((hg v).deepest context t) hmost))]
      exact (hf v).same context t hdepth (Nat.le_trans ((hg v).deepest context t) hmost) hmost
    | (.error error, t) =>
      rw [hrun] at hsame
      rw [bind_of_error hrun] at hmost ⊢
      exact bind_of_error (hsame hmost)
  refused context s hs hdeepest hmost := by
    have hsame := h.same context s hs hdeepest
    have hrefused := h.refused context s hs hdeepest
    have hfails (hlt : most < (q context s).2.deepest) :
        ∃ error, ((r >>= f) context s).1 = .error error ∧ error.message = .tooManyLevels := by
      obtain ⟨error, herror, hmessage⟩ := hrefused hlt
      rw [bind_of_error (Prod.ext herror rfl)]
      exact ⟨error, rfl, hmessage⟩
    have hdepth := (hq.depth context s).trans hs
    match hrun : q context s with
    | (.ok v, t) =>
      rw [hrun] at hsame hdepth hfails
      rw [bind_of_ok hrun] at hmost
      rcases Nat.lt_or_ge most t.deepest with hlt | hle
      · exact hfails hlt
      · rw [bind_of_ok (hsame hle)]
        exact (hf v).refused context t hdepth hle hmost
    | (.error error, t) =>
      rw [hrun] at hfails
      rw [bind_of_error hrun] at hmost
      exact hfails hmost

end Rule.Forks

/-- What is made of rules that fork does so too. -/
theorem Rests.forks {r : Nested → Rule α} (h : Rests early r) (hn : nested'.Restores)
    (hforks : nested.Forks most depth nested') : (r nested).Forks most depth (r nested') := by
  induction h with
  | aloof h => exact .of_aloof h
  | nestedStatement => exact hforks.statement
  | nestedExpression level => exact hforks.expression level
  | bind _ hr _ hf ihr ihf => exact ihr.bind (hr.restores hn) ihf fun v => (hf v).restores hn
  | look _ _ ih =>
    exact ⟨fun context s => (ih s).same context s, fun context s => (ih s).refused context s⟩

/-- What is opened beneath a limit forks from what is opened without one. -/
theorem forks_nestedIn {r q : Rule α} (hfull : isFull limit depth = false) (hmost : depth < most)
    (h : r.Forks most (depth + 1) q) : (nestedIn limit r).Forks most depth (nestedIn none q) := by
  have hentered {s : State} (hs : s.depth = depth) (hdeepest : s.deepest ≤ most) : s.entered.deepest ≤ most :=
    Nat.max_le.mpr ⟨hdeepest, hs ▸ hmost⟩
  refine ⟨fun context s hs hdeepest hle => ?_, fun context s hs hdeepest hlt => ?_⟩
  · rw [nestedIn_none] at hle
    rw [nestedIn_none, nestedIn_of_not_full context (hs ▸ hfull),
      h.same context s.entered (congrArg (· + 1) hs) (hentered hs hdeepest) hle]
  · rw [nestedIn_none] at hlt
    rw [nestedIn_of_not_full context (hs ▸ hfull)]
    exact h.refused context s.entered (congrArg (· + 1) hs) (hentered hs hdeepest) hlt

/-- A rule that refuses everything forks from every rule that opens something. -/
theorem forks_of_refuses {r q : Rule α} (h : r.Refuses depth)
    (hq : ∀ context s, s.depth = depth → depth < (q context s).2.deepest) : r.Forks depth depth q where
  same context s hs _ hle := absurd hle (Nat.not_le_of_lt (hq context s hs))
  refused context s hs _ _ := by
    obtain ⟨deepest, hrun⟩ := h context s hs
    rw [hrun]
    exact ⟨_, rfl, rfl⟩

/-- What is opened counts, whatever becomes of it. -/
theorem lt_deepest_nestedIn {r : Rule α} (h : r.Restores) (context : Context) (s : State) :
    s.depth < (nestedIn none r context s).2.deepest := by
  rw [nestedIn_none]
  exact Nat.lt_of_lt_of_le (Nat.le_max_right _ _) (h.deepest context s.entered)

/-- What is read with room for so many more forks from what is read without a limit. -/
theorem HasRoom.forks (h : HasRoom limit fuel depth room) (hmore : room < more) :
    (nestedRules limit fuel).Forks (depth + room) depth (nestedRules none more) := by
  have hstatement : Rests false statement := .statement
  have hoperation (level : Nat) : Rests false fun nested => operation nested level := .operation level
  induction room generalizing fuel depth more with
  | zero =>
    obtain ⟨less, rfl⟩ := Nat.exists_eq_succ_of_ne_zero (Nat.ne_of_gt hmore)
    have hrestores := restores_nestedRules none less
    have hrefuses : (nestedRules limit fuel).Refuses depth := by
      rw [nestedRules_eq_opened]
      exact h.refuses fun _ => refuses_bottom depth
    refine ⟨forks_of_refuses hrefuses.statement ?_, fun level => forks_of_refuses (hrefuses.expression level) ?_⟩
    · rintro context s rfl
      exact Nat.lt_of_lt_of_le (lt_deepest_nestedIn (hstatement.restores hrestores) context s)
        (Rule.Restores.deepest_le_bind (fun found => .of_aloof (aloof_told found)) context s)
    · rintro context s rfl
      exact lt_deepest_nestedIn ((hoperation level).restores hrestores) context s
  | succ room ih =>
    obtain ⟨fuel, rfl, hfull, hroom⟩ := h.succ
    obtain ⟨less, rfl⟩ := Nat.exists_eq_succ_of_ne_zero (show more ≠ 0 by omega)
    have hrestores := restores_nestedRules none less
    have hforks := ih hroom (Nat.lt_of_succ_lt_succ hmore)
    rw [Nat.add_right_comm] at hforks
    have hlt : depth < depth + (room + 1) := by omega
    refine ⟨?_, fun level => forks_nestedIn hfull hlt ((hoperation level).forks hrestores hforks)⟩
    exact (forks_nestedIn hfull hlt (hstatement.forks hrestores hforks)).bind
      (restores_nestedIn (hstatement.restores hrestores)) (fun found => .of_aloof (aloof_told found))
      fun found => .of_aloof (aloof_told found)

/-- A parse forks from one that has no limit. -/
theorem forks_chunk {limit : Nat} (h : limit < more) :
    (chunk limit).Forks limit 0 (chunkOver (nestedRules none more)) := by
  have hroom : HasRoom (some limit) (limit + 1) 0 limit := ⟨Nat.zero_add _, Nat.lt_succ_self _⟩
  have hforks := hroom.forks h
  rw [Nat.zero_add] at hforks
  exact Rests.chunkOver.forks (restores_nestedRules none more) hforks

/-! ## No more open than tokens were taken -/

/-- A rule behind which more tokens are taken than there ever was open, if that was so before it. One that opens
something early needs another token. -/
def Rule.Paces (early : Bool) (r : Rule α) : Prop :=
  ∀ context (s : State), s.depth + early.toNat < s.taken → s.deepest < s.taken →
    (r context s).2.deepest < (r context s).2.taken

/-- Rules for what is nested that keep pace. -/
structure Nested.Paces (nested : Nested) : Prop where
  statement : nested.statement.Paces true
  expression : ∀ level, (nested.expression level).Paces true

/-- A rule that keeps out of counting keeps pace. -/
theorem Rule.Paces.of_aloof {r : Rule α} (h : r.Aloof) : r.Paces early := fun context s _ hdeepest => by
  rw [(h.kept context s).2]
  exact Nat.lt_of_lt_of_le hdeepest (h.onward context s).taken

/-- Rules that keep pace may stand one behind the other; one behind a token may open something early. -/
theorem Rule.Paces.bind {r : Rule α} {f : α → Rule β} (h : r.Paces early) (hr : r.Restores) (takes : α → Bool)
    (htakes : ∀ context (s : State) v t, takes v = true → r context s = (.ok v, t) → s.taken < t.taken)
    (hf : ∀ v, (f v).Paces (early || takes v)) : (r >>= f).Paces early := by
  intro context s hdepth hdeepest
  have hpaces := h context s hdepth hdeepest
  have hrestored := hr.depth context s
  have honward := (hr.onward context s).taken
  match hrun : r context s with
  | (.ok v, t) =>
    rw [hrun] at hpaces hrestored honward
    rw [bind_of_ok hrun]
    refine hf v context t ?_ hpaces
    cases htaken : takes v with
    | false =>
      rw [Bool.or_false, hrestored]
      exact Nat.lt_of_lt_of_le hdepth honward
    | true =>
      have hlt := htakes context s v t htaken hrun
      rw [Bool.or_true, Bool.toNat_true, hrestored]
      exact Nat.lt_of_le_of_lt (Nat.le_trans (Nat.succ_le_succ (Nat.le_add_right _ _)) hdepth) hlt
  | (.error error, t) =>
    rw [hrun] at hpaces
    rw [bind_of_error hrun]
    exact hpaces

/-- What is made of rules that keep pace keeps pace. -/
theorem Rests.paces {r : Nested → Rule α} (h : Rests early r) (hn : nested.Restores) (hpaces : nested.Paces) :
    (r nested).Paces early := by
  induction h with
  | aloof h => exact .of_aloof h
  | nestedStatement => exact hpaces.statement
  | nestedExpression level => exact hpaces.expression level
  | bind takes hr htakes _ ihr ihf => exact ihr.bind (hr.restores hn) takes (htakes nested) ihf
  | look _ _ ih => exact fun context s => ih s context s

/-- What is opened needs a token that was taken already. -/
theorem paces_nestedIn {r : Rule α} (h : r.Paces false) : (nestedIn limit r).Paces true := by
  intro context s hdepth hdeepest
  have hentered : s.entered.deepest < s.taken := Nat.max_lt.mpr ⟨hdeepest, hdepth⟩
  cases hfull : isFull limit s.depth with
  | true =>
    rw [nestedIn_of_full context hfull]
    exact hentered
  | false =>
    rw [nestedIn_of_not_full context hfull]
    exact h context s.entered hdepth hentered

/-- A token is taken for each statement and each expression before anything is nested in it. -/
theorem paces_nestedRules (limit : Option Nat) (fuel : Nat) : (nestedRules limit fuel).Paces := by
  induction fuel with
  | zero => exact ⟨.of_aloof aloof_complain, fun _ => .of_aloof aloof_complain⟩
  | succ fuel ih =>
    have hrestores := restores_nestedRules limit fuel
    have hstatement : Rests false statement := .statement
    have hoperation (level : Nat) : Rests false fun nested => operation nested level := .operation level
    refine ⟨?_, fun level => paces_nestedIn ((hoperation level).paces hrestores ih)⟩
    exact (paces_nestedIn (hstatement.paces hrestores ih)).bind (restores_nestedIn (hstatement.restores hrestores))
      (fun _ => false) (fun _ _ _ _ => nofun) fun found => .of_aloof (aloof_told found)

/-! ## A parse without a limit -/

/-- A parse of a feed that has no limit and is cut off behind so many levels, and what it has come to. -/
def unlimited (options : ParseOptions) (source : Text) (feed : Feed) (fuel : Nat) :
    Except ParseError Chunk × State :=
  chunkOver (nestedRules none fuel) (.ofFeed options source feed) (.initial options feed)

/-- A rule that opens no more than tokens are taken if nothing was open yet and so many are taken. -/
def Rule.Starts (ahead : Nat) (r : Rule α) : Prop :=
  ∀ context (s : State), s.depth = 0 → s.deepest = 0 → ahead ≤ s.taken →
    (r context s).2.deepest ≤ (r context s).2.taken

/-- A rule that keeps pace may stand where two tokens were taken. -/
theorem Rule.Paces.starts {r : Rule α} (h : r.Paces true) : r.Starts 2 := by
  intro context s hdepth hdeepest htaken
  refine Nat.le_of_lt (h context s ?_ ?_)
  · rw [hdepth, Bool.toNat_true]
    exact htaken
  · rw [hdeepest]
    exact Nat.lt_of_lt_of_le Nat.two_pos htaken

/-- A token that is taken first counts. -/
theorem Rule.Starts.advanced {ahead : Nat} {r : Rule α} (h : r.Starts (ahead + 1)) :
    (advance >>= fun _ => r).Starts ahead := by
  intro context s hdepth hdeepest htaken
  obtain ⟨hsame, hmost⟩ := Rule.Aloof.advance.kept context s
  match hrun : advance context s with
  | (.ok (), t) =>
    rw [hrun] at hsame hmost
    rw [bind_of_ok hrun]
    have hlt : s.taken < t.taken := takes_advance s.taken context s () t (Nat.le_refl _) hrun
    exact h context t (hsame.trans hdepth) (hmost.trans hdeepest) (Nat.lt_of_le_of_lt htaken hlt)
  | (.error error, t) =>
    rw [hrun] at hmost
    rw [bind_of_error hrun]
    exact Nat.le_trans (Nat.le_of_eq (hmost.trans hdeepest)) (Nat.zero_le _)

variable (options : ParseOptions) (source : Text) (feed : Feed)

/-- There never was more open than tokens were taken. -/
theorem deepest_le_taken (fuel : Nat) :
    (unlimited options source feed fuel).2.deepest ≤ (unlimited options source feed fuel).2.taken := by
  have hbody := Rests.chunkBody.paces (restores_nestedRules none fuel) (paces_nestedRules none fuel)
  exact hbody.starts.advanced.advanced _ (.initial options feed) rfl rfl (Nat.zero_le _)

variable {options source feed}

/-- A parse takes two tokens more than the feed holds at most. -/
theorem taken_le (h : feed.Ends) (fuel : Nat) : (unlimited options source feed fuel).2.taken ≤ feed.size + 2 := by
  obtain ⟨deliveries, ending⟩ := feed
  cases ending with
  | error error =>
    have honward := (Rests.chunkOver.restores (restores_nestedRules none fuel)).onward
      (.ofFeed options source ⟨deliveries, .error error⟩) (.initial options ⟨deliveries, .error error⟩)
    have hheld : _ + _ = 0 + deliveries.length := (honward.held error rfl).2
    rw [Nat.zero_add] at hheld
    exact Nat.le_trans (Nat.le_of_add_right_le (Nat.le_of_eq hheld)) (Nat.le_add_right _ 2)
  | ok last =>
    obtain ⟨row, last', later, hgives, hbefore, hlast⟩ := Feed.gives_end (h last rfl) deliveries
    have hlength := Nat.add_le_add_right (hgives.length_le hbefore hlast) 2
    obtain ⟨-, htaken, -⟩ := chunk_within options source fuel
      (Context.ofFeed options source ⟨deliveries, .ok last⟩).overrun
      (Context.ofFeed options source ⟨deliveries, .ok last⟩).overrun hgives hgives hbefore hlast
      (Nat.lt_succ_of_le hlength) (Nat.lt_succ_of_le hlength)
    have hroom : HasRoom none fuel (State.initial options ⟨deliveries, .ok last⟩).depth fuel := rfl
    rw [← hroom.of_chunkOver] at htaken
    exact Nat.le_trans htaken hlength

/-- Behind as many levels as the feed gives tokens, more of them do not matter. -/
theorem unlimited_eq (h : feed.Ends) {fuel fuel' : Nat} (hfuel : feed.size + 2 ≤ fuel) (hmore : fuel ≤ fuel') :
    unlimited options source feed fuel' = unlimited options source feed fuel := by
  rcases Nat.eq_or_lt_of_le hmore with rfl | hlt
  · rfl
  · have hroom : HasRoom none fuel 0 fuel := rfl
    have hforks := Rests.chunkOver.forks (restores_nestedRules none fuel') (hroom.forks hlt)
    rw [Nat.zero_add] at hforks
    refine (hforks.same _ (.initial options feed) rfl (Nat.zero_le _) ?_).symm
    exact Nat.le_trans (deepest_le_taken options source feed fuel') (Nat.le_trans (taken_le h fuel') hfuel)

/-! ## Rows -/

/-- A rule that comes to have more open than a bound, where no more was open before. -/
def Rule.Exceeds (most : Nat) (r : Rule α) (context : Context) (s : State) : Prop :=
  s.deepest ≤ most ∧ most < (r context s).2.deepest

/-- An item of a row was read, and others may follow. -/
def Rule.Goes (turn : Rule (Turn α)) (context : Context) (s t : State) : Prop :=
  ∃ item, turn context s = (.ok (.more item), t)

/-- An item of a row was read. -/
def Rule.Brings (item : Rule (Option α)) (context : Context) (s t : State) : Prop :=
  ∃ value, item context s = (.ok (some value), t)

/-- A step of a row led from a value to another. -/
def Rule.Climbs (step : α → Rule (Option α)) (context : Context) (a b : α × State) : Prop :=
  step a.1 context a.2 = (.ok (some b.1), b.2)

namespace Rule.Exceeds

variable {context : Context} {s : State} {r : Rule α} {f : α → Rule β}

/-- A rule that keeps out of counting does not come too deep. -/
theorem not_aloof (h : r.Aloof) : ¬ r.Exceeds most context s := by
  rintro ⟨hle, hlt⟩
  rw [(h.kept context s).2] at hlt
  exact Nat.not_le_of_lt hlt hle

/-- Of two rules one behind the other, one or the other comes too deep. -/
theorem of_bind (h : (r >>= f).Exceeds most context s) : r.Exceeds most context s ∨
    ∃ v t, r context s = (.ok v, t) ∧ (f v).Exceeds most context t := by
  obtain ⟨hle, hlt⟩ := h
  rcases Nat.lt_or_ge most (r context s).2.deepest with hr | hr
  · exact .inl ⟨hle, hr⟩
  · match hrun : r context s with
    | (.ok v, t) =>
      rw [hrun] at hr
      rw [bind_of_ok hrun] at hlt
      exact .inr ⟨v, t, rfl, hr, hlt⟩
    | (.error error, t) =>
      rw [hrun] at hr
      rw [bind_of_error hrun] at hlt
      exact absurd hr (Nat.not_le_of_lt hlt)

/-- Only the first of two rules comes too deep if the second keeps out of counting. -/
theorem of_bind_aloof (h : (r >>= f).Exceeds most context s) (hf : ∀ v, (f v).Aloof) :
    r.Exceeds most context s := by
  rcases h.of_bind with h | ⟨v, t, -, ht⟩
  · exact h
  · exact absurd ht (not_aloof (hf v))

/-- Only the second of two rules comes too deep if the first keeps out of counting. -/
theorem behind (h : (r >>= f).Exceeds most context s) (hr : r.Aloof) :
    ∃ v t, r context s = (.ok v, t) ∧ t.depth = s.depth ∧ (f v).Exceeds most context t := by
  rcases h.of_bind with h | ⟨v, t, hrun, ht⟩
  · exact absurd h (not_aloof hr)
  · have hdepth := (hr.kept context s).1
    rw [hrun] at hdepth
    exact ⟨v, t, hrun, hdepth, ht⟩

/-- To look at a token does not come too deep. -/
theorem of_current {f : Token → Rule β} (h : (Rule.current >>= f).Exceeds most context s) :
    (f s.token).Exceeds most context s := h

/-- To ask for a feature does not come too deep. -/
theorem of_has {feature : Feature} {f : Bool → Rule β} (h : (Rule.has feature >>= f).Exceeds most context s) :
    (f (context.options.has feature)).Exceeds most context s := h

/-- A choice comes too deep by the rule that was chosen. -/
theorem of_ite {c : Bool} {q : Rule α} (h : (if c = true then r else q).Exceeds most context s) :
    c = true ∧ r.Exceeds most context s ∨ c = false ∧ q.Exceeds most context s := by
  cases c
  · exact .inr ⟨rfl, h⟩
  · exact .inl ⟨rfl, h⟩

/-- Turns come too deep only by one of them, from where as much is open as at the first. -/
theorem of_turns {turn : Rule (Turn α)} (hturn : turn.Restores) {fuel : Nat}
    (h : (Rule.turns turn fuel).Exceeds most context s) :
    ∃ t, Relation.ReflTransGen (turn.Goes context) s t ∧ t.depth = s.depth ∧ turn.Exceeds most context t := by
  induction fuel generalizing s with
  | zero => exact absurd h (not_aloof .overrun)
  | succ fuel ih =>
    rcases h.of_bind with h | ⟨v, t, hrun, ht⟩
    · exact ⟨s, .refl, rfl, h⟩
    · match v with
      | .stop => exact absurd ht (not_aloof (.give []))
      | .last item => exact absurd ht (not_aloof (.give [item]))
      | .more item =>
        obtain ⟨u, hreach, hdepth, hu⟩ := ih (ht.of_bind_aloof fun items => .give (item :: items))
        have hsame := hturn.depth context s
        rw [hrun] at hsame
        exact ⟨u, .head ⟨item, hrun⟩ hreach, hdepth.trans hsame, hu⟩

/-- A row of items comes too deep only by an item that begins where others were read before it. -/
theorem of_many {item : Rule (Option α)} (hitem : item.Restores) (h : (Rule.many item).Exceeds most context s) :
    ∃ t, Relation.ReflTransGen (item.Brings context) s t ∧ t.depth = s.depth ∧ item.Exceeds most context t := by
  obtain ⟨f, hnone, hsome, hmany⟩ : ∃ f : Option α → Rule (Turn α), f none = pure .stop ∧
      (∀ value, f (some value) = pure (.more value)) ∧ Rule.many item = Rule.repeated (item >>= f) :=
    ⟨_, rfl, fun _ => rfl, rfl⟩
  have haloof (v : Option α) : (f v).Aloof := by
    cases v with
    | none => exact hnone ▸ .give Turn.stop
    | some value => exact hsome value ▸ .give (Turn.more value)
  rw [hmany] at h
  obtain ⟨t, hreach, hdepth, ht⟩ := of_turns (hitem.bind fun v => .of_aloof (haloof v)) h
  refine ⟨t, Relation.ReflTransGen.mono ?_ s t hreach, hdepth, ht.of_bind_aloof haloof⟩
  rintro s t ⟨value, hrun⟩
  obtain ⟨v, u, hv, hu⟩ := bind_eq_ok.mp hrun
  cases v with
  | none =>
    rw [hnone] at hu
    cases hu
  | some item =>
    rw [hsome] at hu
    cases hu
    exact ⟨_, hv⟩

/-- Steps come too deep only by one of them, from where as much is open as at the first. -/
theorem of_steps {step : α → Rule (Option α)} (hstep : ∀ value, (step value).Restores) {fuel : Nat} {value : α}
    (h : (Rule.steps step fuel value).Exceeds most context s) :
    ∃ reached t, Relation.ReflTransGen (Rule.Climbs step context) (value, s) (reached, t) ∧ t.depth = s.depth ∧
      (step reached).Exceeds most context t := by
  induction fuel generalizing s value with
  | zero => exact absurd h (not_aloof .overrun)
  | succ fuel ih =>
    rcases h.of_bind with h | ⟨v, t, hrun, ht⟩
    · exact ⟨value, s, .refl, rfl, h⟩
    · match v with
      | none => exact absurd ht (not_aloof (.give value))
      | some next =>
        obtain ⟨reached, u, hreach, hdepth, hu⟩ := ih ht
        have hsame := (hstep value).depth context s
        rw [hrun] at hsame
        have hclimbs : Rule.Climbs step context (value, s) (next, t) := hrun
        exact ⟨reached, u, .head hclimbs hreach, hdepth.trans hsame, hu⟩

/-! ### Rows of the grammar -/

variable {start : Place} {level : Nat}

/-- A part of a block comes too deep only by its statement. -/
theorem of_blockTurn (h : (blockTurn nested).Exceeds most context s) :
    nested.statement.Exceeds most context s := by
  obtain ⟨-, h⟩ | ⟨-, h⟩ := h.of_current.of_ite
  · exact absurd h (not_aloof (.give _))
  · refine h.of_has.of_bind_aloof fun statement => .ite (.ite ?_ (.give _)) ?_
    · exact (Rule.Aloof.consume _).bind fun _ => .give _
    · exact (Rule.Aloof.consume _).bind fun _ => .give _

/-- What has to be there comes too deep only by the rule for it. -/
theorem of_required {r : Rule (Option Expression)} (h : (required r).Exceeds most context s) :
    r.Exceeds most context s := by
  refine h.of_bind_aloof fun found => ?_
  cases found with
  | none => exact ⟨fun _ _ _ _ => rfl, fun _ _ => .refl _⟩
  | some expression => exact .give expression

/-- A step over an operator comes too deep only by what stands on its right. -/
theorem of_operatorStep {left : Expression} (h : (operatorStep nested level start left).Exceeds most context s) :
    ∃ operator u, Operator.ofToken? s.token.value = some operator ∧ advance context s = (.ok (), u) ∧
      u.depth = s.depth ∧ (nested.expression operator.rightLevel).Exceeds most context u := by
  replace h := h.of_current
  cases hoperator : Operator.ofToken? s.token.value with
  | none =>
    simp only [hoperator] at h
    exact absurd h (not_aloof (.give none))
  | some operator =>
    simp only [hoperator] at h
    split at h
    · exact absurd h (not_aloof (.give none))
    · obtain ⟨⟨⟩, u, hrun, hdepth, hu⟩ := h.behind .advance
      refine ⟨operator, u, rfl, hrun, hdepth, (hu.of_bind_aloof fun right => ?_).of_required⟩
      exact ⟨fun _ _ _ _ => rfl, fun _ _ => .of_eq rfl rfl⟩

/-- An item behind a comma comes too deep only by its expression. -/
theorem of_commaExpression (h : (commaExpression nested).Exceeds most context s) :
    ∃ u, consume Symbol.comma context s = (.ok true, u) ∧ u.depth = s.depth ∧
      (nested.expression 0).Exceeds most context u := by
  obtain ⟨found, u, hrun, hdepth, hu⟩ := h.behind (.consume _)
  cases found with
  | false => exact absurd hu (not_aloof (.give none))
  | true => exact ⟨u, hrun, hdepth, (hu.of_bind_aloof fun expression => .give (some expression)).of_required⟩

/-- A step over a suffix comes too deep only by that suffix. -/
theorem of_suffixStep {base : Expression} (h : (suffixStep nested start base).Exceeds most context s) :
    (suffix nested start base).Exceeds most context s := by
  obtain ⟨-, h⟩ | ⟨-, h⟩ := h.of_current.of_ite
  · exact h.of_bind_aloof fun expression => .give (some expression)
  · exact absurd h (not_aloof (.give none))

end Rule.Exceeds

/-- The limit speaks of nesting only. -/
structure LimitsNesting (options : ParseOptions) (source : Text) (feed : Feed) : Prop where
  /-- Behind a statement as much is open as before it, whatever came of it, and with or without a limit. -/
  statement_restored : ∀ limit fuel context s, ((nestedRules limit fuel).statement context s).2.depth = s.depth
  /-- Behind an expression as much is open as before it. -/
  expression_restored : ∀ limit fuel level context s,
    ((nestedRules limit fuel).expression level context s).2.depth = s.depth
  /-- Only the count of what is open limits a parse, not how often the knot of the grammar is tied. -/
  counted : ∀ fuel, nestingLimit < fuel → run options source feed =
    .of (chunkOver (nestedRules (some nestingLimit) fuel) (.ofFeed options source feed) (.initial options feed))
  /-- A parse does what one without a limit does in which no more is open at any time. -/
  same : ∀ fuel, nestingLimit < fuel → (unlimited options source feed fuel).2.deepest ≤ nestingLimit →
    run options source feed = .of (unlimited options source feed fuel)
  /-- It fails if more is open at some time without a limit. -/
  refused : ∀ fuel, nestingLimit < fuel → nestingLimit < (unlimited options source feed fuel).2.deepest →
    ∃ error, (run options source feed).result = .error error ∧ error.message = .tooManyLevels
  /-- The one without a limit has as many levels as it needs. -/
  unlimited : feed.Ends → ∀ fuel fuel', feed.size + 2 ≤ fuel → fuel ≤ fuel' →
    unlimited options source feed fuel' = unlimited options source feed fuel
  /-- A block comes too deep only by one of its statements, from where as much is open as at its first. -/
  block : ∀ limit fuel most context s, (statements (nestedRules limit fuel)).Exceeds most context s →
    ∃ t, Relation.ReflTransGen ((blockTurn (nestedRules limit fuel)).Goes context) s t ∧ t.depth = s.depth ∧
      (nestedRules limit fuel).statement.Exceeds most context t
  /-- A row of operators comes too deep only by one of the right operands. -/
  operators : ∀ limit fuel most context s level start first,
    (iterated (operatorStep (nestedRules limit fuel) level start) first).Exceeds most context s →
    ∃ left t operator u, Relation.ReflTransGen
        (Rule.Climbs (operatorStep (nestedRules limit fuel) level start) context) (first, s) (left, t) ∧
      Operator.ofToken? t.token.value = some operator ∧ advance context t = (.ok (), u) ∧ u.depth = s.depth ∧
      ((nestedRules limit fuel).expression operator.rightLevel).Exceeds most context u
  /-- A row of suffixes comes too deep only by one of them. -/
  suffixes : ∀ limit fuel most context s start first,
    (iterated (suffixStep (nestedRules limit fuel) start) first).Exceeds most context s →
    ∃ base t, Relation.ReflTransGen
        (Rule.Climbs (suffixStep (nestedRules limit fuel) start) context) (first, s) (base, t) ∧
      t.depth = s.depth ∧ (suffix (nestedRules limit fuel) start base).Exceeds most context t
  /-- A list of expressions comes too deep only by one of them. -/
  list : ∀ limit fuel most context s, (expressionList (nestedRules limit fuel)).Exceeds most context s →
    ((nestedRules limit fuel).expression 0).Exceeds most context s ∨
    ∃ first t t' u, expression (nestedRules limit fuel) context s = (.ok first, t) ∧
      Relation.ReflTransGen ((commaExpression (nestedRules limit fuel)).Brings context) t t' ∧
      consume Symbol.comma context t' = (.ok true, u) ∧ u.depth = s.depth ∧
      ((nestedRules limit fuel).expression 0).Exceeds most context u

/-- The limit on nesting trips on nesting only. -/
theorem limits_nesting (options : ParseOptions) (source : Text) (feed : Feed) :
    LimitsNesting options source feed where
  statement_restored limit fuel := (restores_nestedRules limit fuel).statement.depth
  expression_restored limit fuel level := ((restores_nestedRules limit fuel).expression level).depth
  counted fuel hfuel := by
    have hroom : HasRoom (some nestingLimit) fuel (State.initial options feed).depth nestingLimit :=
      ⟨Nat.zero_add _, hfuel⟩
    exact (run_eq_levels options source feed).trans hroom.of_chunkOver.symm
  same fuel hfuel hdeepest :=
    congrArg Outcome.of ((forks_chunk hfuel).same _ (.initial options feed) rfl (Nat.zero_le _) hdeepest)
  refused fuel hfuel hdeepest := (forks_chunk hfuel).refused _ (.initial options feed) rfl (Nat.zero_le _) hdeepest
  unlimited h _ _ hfuel hmore := unlimited_eq h hfuel hmore
  block limit fuel most context s h := by
    have hturn : (blockTurn (nestedRules limit fuel)).Restores :=
      Rests.blockTurn.restores (restores_nestedRules limit fuel)
    obtain ⟨t, hreach, hdepth, ht⟩ := Rule.Exceeds.of_turns hturn
      (h.of_bind_aloof fun found => .give (found.filterMap id))
    exact ⟨t, hreach, hdepth, ht.of_blockTurn⟩
  operators limit fuel most context s level start first h := by
    have hstep (left : Expression) : (operatorStep (nestedRules limit fuel) level start left).Restores :=
      (Rests.operatorStep level start left : Rests true _).restores (restores_nestedRules limit fuel)
    obtain ⟨left, t, hreach, hdepth, ht⟩ := Rule.Exceeds.of_steps hstep h
    obtain ⟨operator, u, hoperator, hrun, hsame, hu⟩ := ht.of_operatorStep
    exact ⟨left, t, operator, u, hreach, hoperator, hrun, hsame.trans hdepth, hu⟩
  suffixes limit fuel most context s start first h := by
    have hstep (base : Expression) : (suffixStep (nestedRules limit fuel) start base).Restores :=
      (Rests.suffixStep start base).restores (restores_nestedRules limit fuel)
    obtain ⟨base, t, hreach, hdepth, ht⟩ := Rule.Exceeds.of_steps hstep h
    exact ⟨base, t, hreach, hdepth, ht.of_suffixStep⟩
  list limit fuel most context s h := by
    have hitem : (commaExpression (nestedRules limit fuel)).Restores :=
      Rests.commaExpression.restores (restores_nestedRules limit fuel)
    have hfirst : (expression (nestedRules limit fuel)).Restores :=
      Rests.expression.restores (restores_nestedRules limit fuel)
    rcases h.of_bind with h | ⟨first, t, hrun, ht⟩
    · exact .inl h.of_required
    · obtain ⟨t', hreach, hdepth, ht'⟩ := (ht.of_bind_aloof fun rest => .give (first :: rest)).of_many hitem
      obtain ⟨u, hcomma, hsame, hu⟩ := ht'.of_commaExpression
      have hback := hfirst.depth context s
      rw [hrun] at hback
      exact .inr ⟨first, t, t', u, hrun, hreach, hcomma, hsame.trans (hdepth.trans hback), hu⟩

end Grammar

end LuaSyntax
