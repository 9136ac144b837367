import LuaSyntax.Proofs.Grammar.Lockstep.Diagonal
import LuaSyntax.Proofs.Reading.Vocabulary
import LuaSyntax.Proofs.Tree.Demands

/-!
# The ground of a parse

Whatever a parse makes, it makes of the tokens it is given: names and literals are tokens, a node stands
between the beginning of one token and the end of another, and an error blames a token. So what is known
of the tokens is known of the tree. A `Ground` says what is known of the tokens of a feed and what
follows from that for the nodes of a tree and for errors.

The states of a parse are grounded as long as everything that they keep for later is: the tokens to
come, which stand in order, the names in the open scopes, and the tokens that jumps are blamed on.
-/

namespace LuaSyntax

/-- What is known of tokens, and of what is made of them. -/
structure Ground where
  options : ParseOptions
  source : Text
  token : Token → Prop
  error : ParseError → Prop
  demands : Demands
  ordered : ∀ {known : Token}, token known → known.start.offset ≤ known.stop.offset
  blamed : ∀ {known : Token}, token known → ∀ message arguments,
    error (Grammar.Rule.errorAt source known message arguments)
  feature : ∀ {feature : Feature}, options.has feature = true → demands.feature feature
  word : ∀ {known : Token}, token known → ∀ feature ∈ known.value.feature?, demands.feature feature
  identifier : ∀ {known : Token} {name : String}, token known → known.name? = some name →
    demands.identifier { name, placement := .between options source known.start known.stop }
  renamed : ∀ {identifier : Identifier} (isLocal : Bool), demands.identifier identifier →
    demands.identifier { identifier with isLocal }
  literal : ∀ {known : Token} {value : LiteralValue}, token known →
    Grammar.literalValue? known.value = some value →
    demands.literal ⟨value, known.lexeme, .between options source known.start known.stop⟩
  placement : ∀ {first last : Token}, token first → token last →
    first.start.offset ≤ last.stop.offset →
    demands.placement (.between options source first.start last.stop)

/-! ## Books -/

/-- Whether all names that a scope keeps are grounded. -/
structure Scope.Grounded (g : Ground) (scope : Scope) : Prop where
  frames : ∀ frame ∈ scope.frames, ∀ binding ∈ frame, binding.Meets g.demands
  unresolved : ∀ identifier ∈ scope.unresolved, g.demands.identifier identifier

/-- Whether all tokens that jumps may be blamed on are known. -/
structure Jumps.Grounded (g : Ground) (jumps : Jumps) : Prop where
  pending : ∀ goto ∈ jumps.pending, g.token goto.token
  deferred : ∀ block ∈ jumps.blocks, ∀ goto ∈ block.deferred, g.token goto.token

/-! ## Feeds -/

namespace Feed

variable {feed rest : Feed} {delivery : Delivery}

/-- All that a feed holds, its end among it. -/
def stock (feed : Feed) : List Delivery := feed.deliveries ++ feed.ending.toOption.toList

/-- What is taken from a feed was in it, and what is left is what it held besides; its end stays, with
no comments. -/
theorem stock_next (h : feed.next = .ok (delivery, rest)) :
    rest.ending = feed.ending ∧ feed.stock = delivery :: rest.stock ∨
    rest.ending = .ok { delivery with comments := [] } ∧ feed.stock = [delivery] ∧
      rest.stock = [{ delivery with comments := [] }] := by
  obtain ⟨deliveries, ending⟩ := feed
  cases deliveries with
  | cons first others =>
    obtain ⟨rfl, rfl⟩ := Prod.mk.inj (Except.ok.inj h)
    exact .inl ⟨rfl, rfl⟩
  | nil =>
    cases ending with
    | error error => cases h
    | ok last =>
      obtain ⟨rfl, rfl⟩ := Prod.mk.inj (Except.ok.inj h)
      exact .inr ⟨rfl, rfl, rfl⟩

end Feed

namespace Grammar

variable {g : Ground} {s t : State} {start : Place}

/-- The tokens that a parse still has to take, the end as often as it likes. -/
def State.upcoming (s : State) : List Token :=
  s.token :: s.lookahead :: s.feed.stock.map Delivery.token

/-- What is to come behind a token was to come before, in the same order. -/
theorem State.upcoming_advance {context : Context} (h : Rule.advance context s = (.ok (), t)) :
    s.upcoming = s.token :: t.upcoming ∨
      ∃ last, s.upcoming = [s.token, s.lookahead, last] ∧ t.upcoming = [s.lookahead, last, last] := by
  obtain ⟨delivery, feed, hnext, rfl⟩ := Rule.advance_eq_ok.mp h
  rcases Feed.stock_next hnext with ⟨-, hstock⟩ | ⟨-, hstock, hrest⟩
  · refine .inl ?_
    rw [upcoming, hstock, List.map_cons]
    rfl
  · refine .inr ⟨delivery.token, ?_, ?_⟩
    · rw [upcoming, hstock]
      rfl
    · show s.lookahead :: delivery.token :: feed.stock.map Delivery.token = _
      rw [hrest]
      rfl

/-- What is to come behind a token was to come before it. -/
theorem State.mem_upcoming_advance {context : Context} (h : Rule.advance context s = (.ok (), t))
    {token : Token} (hmem : token ∈ t.upcoming) : token ∈ s.upcoming := by
  rcases upcoming_advance h with hcons | ⟨last, hs, ht⟩
  · rw [hcons]
    exact List.mem_cons_of_mem _ hmem
  · rw [hs]
    rw [ht] at hmem
    simp only [List.mem_cons, List.not_mem_nil, or_false, or_self] at hmem ⊢
    exact .inr hmem

/-- What a parse has to take is grounded and stands in order. -/
structure State.Stocked (g : Ground) (s : State) : Prop where
  tokens : ∀ token ∈ s.upcoming, g.token token
  sorted : s.upcoming.Pairwise fun a b => a.start.offset ≤ b.start.offset
  ahead : ∀ delivery ∈ s.feed.stock, ∀ comment ∈ delivery.comments, g.demands.comment comment
  comments : ∀ comment ∈ s.comments, g.demands.comment comment
  ending : ∀ error, s.feed.ending = .error error → g.error error

instance (g : Ground) : Closed (State.Stocked g) where
  put h _ _ _ := ⟨h.tokens, h.sorted, h.ahead, h.comments, h.ending⟩
  settle h _ := ⟨h.tokens, h.sorted, h.ahead, h.comments, h.ending⟩
  advance := by
    intro context s t h hadvance
    obtain ⟨delivery, feed, hnext, rfl⟩ := Rule.advance_eq_ok.mp hadvance
    have hsorted := h.sorted
    have hahead := h.ahead
    refine ⟨fun token hmem => h.tokens token (State.mem_upcoming_advance hadvance hmem), ?_, ?_, ?_, ?_⟩
    · rcases State.upcoming_advance hadvance with hcons | ⟨last, hs, ht⟩
      · rw [hcons] at hsorted
        exact (List.pairwise_cons.mp hsorted).2
      · rw [hs] at hsorted
        rw [ht]
        have hle : s.lookahead.start.offset ≤ last.start.offset :=
          (List.pairwise_cons.mp (List.pairwise_cons.mp hsorted).2).1 _ List.mem_cons_self
        simp [hle]
    · rcases Feed.stock_next hnext with ⟨-, hstock⟩ | ⟨-, -, hrest⟩
      · rw [hstock] at hahead
        exact (List.forall_mem_cons.mp hahead).2
      · intro other hmem comment hcomment
        rw [show (Rule.shift s delivery feed).feed.stock = _ from hrest] at hmem
        obtain rfl := List.mem_singleton.mp hmem
        cases hcomment
    · refine List.forall_mem_append.mpr ⟨h.comments, hahead delivery ?_⟩
      rcases Feed.stock_next hnext with ⟨-, hstock⟩ | ⟨-, hstock, -⟩ <;> rw [hstock] <;>
        exact List.mem_cons_self
    · intro error herror
      rcases Feed.stock_next hnext with ⟨hending, -⟩ | ⟨hending, -⟩
      · exact h.ending error (hending.symm.trans herror)
      · exact absurd (hending.symm.trans herror) nofun

/-! ## Marks -/

/-- A place that was marked: a token begins there, and none that is still to come begins before it. -/
structure State.Marked (g : Ground) (start : Place) (s : State) : Prop where
  first : ∃ token, g.token token ∧ token.start = start
  upcoming : ∀ token ∈ s.upcoming, g.token token ∧ start.offset ≤ token.start.offset

/-- A place that was marked, and a token was taken since. -/
structure State.Begun (g : Ground) (start : Place) (s : State) : Prop extends s.Marked g start where
  previous : g.token s.previous
  le : start.offset ≤ s.previous.stop.offset

/-- Behind a token a place that was marked has begun something. -/
theorem State.Marked.advance {context : Context} (h : s.Marked g start)
    (hadvance : Rule.advance context s = (.ok (), t)) : t.Begun g start := by
  obtain ⟨hknown, hle⟩ := h.upcoming s.token List.mem_cons_self
  have hprevious : t.previous = s.token := by
    obtain ⟨_, _, -, rfl⟩ := Rule.advance_eq_ok.mp hadvance
    rfl
  refine ⟨⟨h.first, fun token hmem => h.upcoming token (mem_upcoming_advance hadvance hmem)⟩, ?_, ?_⟩
  · rwa [hprevious]
  · rw [hprevious]
    exact Nat.le_trans hle (g.ordered hknown)

instance (g : Ground) (start : Place) : Closed (State.Marked g start) where
  put h _ _ _ := ⟨h.first, h.upcoming⟩
  settle h _ := ⟨h.first, h.upcoming⟩
  advance h hadvance := (h.advance hadvance).toMarked

instance (g : Ground) (start : Place) : Closed (State.Begun g start) where
  put h _ _ _ := ⟨⟨h.first, h.upcoming⟩, h.previous, h.le⟩
  settle {s} h _ := by
    obtain ⟨hknown, hle⟩ := h.upcoming s.token List.mem_cons_self
    exact ⟨⟨h.first, h.upcoming⟩, hknown, Nat.le_trans hle (g.ordered hknown)⟩
  advance h hadvance := h.toMarked.advance hadvance

instance {Q R : State → Prop} [Closed Q] [Closed R] : Closed fun s => Q s ∧ R s where
  put h scope log jumps := ⟨Closed.put h.1 scope log jumps, Closed.put h.2 scope log jumps⟩
  settle h hend := ⟨Closed.settle h.1 hend, Closed.settle h.2 hend⟩
  advance h hadvance := ⟨Closed.advance h.1 hadvance, Closed.advance h.2 hadvance⟩

/-- A place that was marked when so many tokens were taken. -/
def State.MarkedAt (g : Ground) (start : Place) (count : Nat) (s : State) : Prop :=
  s.Marked g start ∧ (count < s.taken → s.Begun g start)

instance (g : Ground) (start : Place) (count : Nat) : Closed (State.MarkedAt g start count) where
  put h scope log jumps :=
    ⟨Closed.put h.1 scope log jumps, fun hlt => Closed.put (h.2 hlt) scope log jumps⟩
  settle h hend := ⟨Closed.settle h.1 hend, fun hlt => Closed.settle (h.2 hlt) hend⟩
  advance h hadvance := ⟨Closed.advance h.1 hadvance, fun _ => h.1.advance hadvance⟩

/-! ## States -/

/-- A state of which all that it keeps is grounded. -/
structure State.Grounded (g : Ground) (s : State) : Prop where
  stocked : s.Stocked g
  scope : s.scope.Grounded g
  jumps : s.jumps.Grounded g

/-- Books may be changed to others that are known. -/
theorem State.Grounded.put (h : s.Grounded g) {scope : Scope} {jumps : Jumps} (log : List Event)
    (hscope : scope.Grounded g) (hjumps : jumps.Grounded g) : (s.put scope log jumps).Grounded g :=
  ⟨Closed.put h.stocked scope log jumps, hscope, hjumps⟩

/-- Behind a token all is still known. -/
theorem State.Grounded.advance {context : Context} (h : s.Grounded g)
    (hadvance : Rule.advance context s = (.ok (), t)) : t.Grounded g := by
  have hstocked := Closed.advance h.stocked hadvance
  obtain ⟨_, _, -, rfl⟩ := Rule.advance_eq_ok.mp hadvance
  exact ⟨hstocked, h.scope, h.jumps⟩

/-- The token that a parse stands at is known. -/
theorem State.Grounded.token (h : s.Grounded g) : g.token s.token :=
  h.stocked.tokens _ List.mem_cons_self

/-- The token that a parse stands at begins where it can be marked. -/
theorem State.Grounded.marked (h : s.Grounded g) : s.Marked g s.token.start := by
  refine ⟨⟨s.token, h.token, rfl⟩, fun token hmem => ⟨h.stocked.tokens token hmem, ?_⟩⟩
  rcases List.mem_cons.mp hmem with rfl | hmem
  · exact Nat.le_refl _
  · exact (List.pairwise_cons.mp h.stocked.sorted).1 token hmem

end Grammar

end LuaSyntax
