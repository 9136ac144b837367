import LuaSyntax.Proofs.Grammar.Depth.Levels
import LuaSyntax.Proofs.Grammar.Lockstep.Statement

/-!
# How a feed ends

A chunk is read up to the end of the input, so a feed that fails before it holds no chunk. And it does
not matter where the input ends: a feed that ends somewhere else, behind the same tokens, holds a
chunk as well.
-/

namespace LuaSyntax

namespace Feed

/-- A delivery from a feed that will fail is no end. -/
theorem next_of_error {feed rest : Feed} {delivery : Delivery} {error : ParseError}
    (hdeliveries : ∀ delivery ∈ feed.deliveries, delivery.token.isEnd = false)
    (hending : feed.ending = .error error) (hnext : feed.next = .ok (delivery, rest)) :
    delivery.token.isEnd = false ∧ (∀ delivery ∈ rest.deliveries, delivery.token.isEnd = false) ∧
      rest.ending = .error error := by
  unfold next at hnext
  split at hnext
  · next first others hfeed =>
    cases hnext
    rw [hfeed] at hdeliveries
    exact ⟨hdeliveries _ List.mem_cons_self, fun d hd => hdeliveries d (List.mem_cons_of_mem _ hd),
      hending⟩
  · rw [hending] at hnext
    cases hnext

end Feed

namespace Grammar

open Rule

variable {options : ParseOptions} {source source' : Text} {deliveries : List Delivery}

/-! ## Feeds that fail -/

/-- A state in which the input has not ended and will not end either, but fail. -/
structure State.Doomed (s : State) : Prop where
  token : s.token.isEnd = false
  lookahead : s.lookahead.isEnd = false
  deliveries : ∀ delivery ∈ s.feed.deliveries, delivery.token.isEnd = false
  ending : ∃ error, s.feed.ending = .error error

instance : Closed State.Doomed where
  put h _ _ _ := ⟨h.token, h.lookahead, h.deliveries, h.ending⟩
  settle h hend := by
    rw [h.token] at hend
    cases hend
  advance := by
    intro context s s' h hrun
    obtain ⟨delivery, feed, hnext, rfl⟩ := advance_eq_ok.mp hrun
    obtain ⟨error, hending⟩ := h.ending
    obtain ⟨hdelivery, hdeliveries, hrest⟩ := Feed.next_of_error h.deliveries hending hnext
    exact ⟨h.lookahead, hdelivery, hdeliveries, error, hrest⟩

/-- A chunk is not complete before the input has ended. -/
theorem chunkBody_doomed (limit : Nat) :
    (chunkBody (levels limit)).Leads State.Doomed fun _ _ => False := by
  have hfit (context : Context) : (Pairing.diagonal context State.Doomed).Fit (levels limit) :=
    Pairing.fit_levels limit
  refine (Pairing.Stable.keeps fun _ => Pairing.stable_mark).bind fun start => ?_
  refine (Pairing.Stable.keeps fun _ => Pairing.stable_openScope).bind fun _ => ?_
  refine (Pairing.Stable.keeps fun _ => Pairing.stable_openBlock false).bind fun _ => ?_
  refine (Pairing.Stable.keeps fun context => Pairing.stable_statements (hfit context)).bind
    fun body => ?_
  refine (Pairing.Stable.keeps fun _ => Pairing.stable_closeBlock).bind fun _ => ?_
  refine (Pairing.Stable.keeps fun _ => Pairing.stable_closeScope).bind fun scope => ?_
  intro context s chunk s' hs hrun
  obtain ⟨token, t, hcurrent, hrest⟩ := bind_eq_ok.mp hrun
  cases hcurrent
  rw [hs.token, Bool.not_false, if_pos rfl] at hrest
  obtain ⟨error, hrefuse⟩ : ∃ error, (refuse : Rule Unit) context s = (.error error, s) :=
    fails_refuse context s
  rw [bind_of_error hrefuse] at hrest
  cases hrest

/-- A feed that fails holds no chunk. -/
theorem run_of_error {error : ParseError}
    (h : ∀ delivery ∈ deliveries, delivery.token.isEnd = false) :
    ∃ error', (run options source ⟨deliveries, .error error⟩).result = .error error' := by
  cases hrun : chunkOver (levels nestingLimit) (.ofFeed options source ⟨deliveries, .error error⟩)
    (.initial options ⟨deliveries, .error error⟩) with
  | mk result s' =>
    cases result with
    | error error' => exact ⟨error', by rw [run_eq_levels, Outcome.of, hrun]⟩
    | ok chunk =>
      obtain ⟨first, feed, second, feed', hfirst, hsecond, hbody⟩ := chunk_eq_ok.mp hrun
      obtain ⟨htoken, hdeliveries, hending⟩ := Feed.next_of_error h rfl hfirst
      obtain ⟨hlookahead, hdeliveries, hending⟩ := Feed.next_of_error hdeliveries hending hsecond
      have hdoomed : (shift (shift (.initial options ⟨deliveries, .error error⟩) first feed) second
          feed').Doomed := ⟨htoken, hlookahead, hdeliveries, error, hending⟩
      exact (chunkBody_doomed nestingLimit _ _ _ _ hdoomed hbody).elim

/-! ## Feeds that end elsewhere -/

/-- Two states that have come equally far in feeds that end differently: what is not the end stands
at the same place in both. -/
structure State.Abreast (s t : State) : Prop where
  token : Same s.token t.token
  previous : Same s.previous t.previous
  lookahead : Same s.lookahead t.lookahead
  jumps : Same s.jumps t.jumps
  here : s.token.isEnd = false → s.token = t.token ∧ s.previous = t.previous
  ahead : s.lookahead.isEnd = false → s.lookahead = t.lookahead ∧ s.token = t.token
  deliveries : s.feed.deliveries = t.feed.deliveries
  behind : s.feed.deliveries ≠ [] → s.lookahead = t.lookahead
  ending : ∃ last last', s.feed.ending = .ok last ∧ t.feed.ending = .ok last' ∧
    last.token.isEnd = true ∧ Same last.token last'.token

/-- Two parses of feeds that end differently. -/
def Pairing.ends (left right : Context) : Pairing where
  left
  right
  Related := State.Abreast
  Escaped _ := False
  Lenient := False

/-- Taking a token keeps both parses abreast. -/
theorem State.Abreast.advance {left right : Context} {s t : State} (h : s.Abreast t) :
    (Pairing.ends left right).Meet Any (Rule.advance left s) (Rule.advance right t) := by
  obtain ⟨last, last', hlast, hlast', hend, hsame⟩ := h.ending
  cases hs : s.feed.deliveries with
  | nil =>
    have ht : t.feed.deliveries = [] := h.deliveries.symm.trans hs
    have hadvance : Rule.advance left s =
        (.ok (), shift s last ⟨[], .ok { last with comments := [] }⟩) :=
      advance_eq_ok.mpr ⟨_, _, by rw [Feed.next, hs, hlast]; rfl, rfl⟩
    have hadvance' : Rule.advance right t =
        (.ok (), shift t last' ⟨[], .ok { last' with comments := [] }⟩) :=
      advance_eq_ok.mpr ⟨_, _, by rw [Feed.next, ht, hlast']; rfl, rfl⟩
    rw [hadvance, hadvance']
    refine .both trivial ⟨h.lookahead, h.token, hsame, h.jumps, h.ahead, ?_, rfl, ?_,
      _, _, rfl, rfl, hend, hsame⟩
    · intro hnot
      rw [show last.token.isEnd = false from hnot] at hend
      cases hend
    · exact fun hne => absurd rfl hne
  | cons delivery others =>
    have ht : t.feed.deliveries = delivery :: others := h.deliveries.symm.trans hs
    have hadvance : Rule.advance left s =
        (.ok (), shift s delivery { s.feed with deliveries := others }) :=
      advance_eq_ok.mpr ⟨_, _, by rw [Feed.next, hs], rfl⟩
    have hadvance' : Rule.advance right t =
        (.ok (), shift t delivery { t.feed with deliveries := others }) :=
      advance_eq_ok.mpr ⟨_, _, by rw [Feed.next, ht], rfl⟩
    have hlookahead := h.behind (by rw [hs]; exact List.cons_ne_nil _ _)
    rw [hadvance, hadvance']
    exact .both trivial ⟨h.lookahead, h.token, .refl _, h.jumps, h.ahead,
      fun _ => ⟨rfl, hlookahead⟩, rfl, fun _ => rfl, last, last', hlast, hlast', hend, hsame⟩

/-- Options of the same dialect are a sound pair for feeds that end differently. -/
theorem Pairing.sound_ends {left right : Context}
    (hdialect : left.options.dialect = right.options.dialect) (hturns : left.turns = right.turns) :
    (Pairing.ends left right).Sound where
  dialect_eq := hdialect
  turns := .inl hturns
  alike h := ⟨h.token, h.previous, h.jumps⟩
  line := by
    intro s t h hend
    obtain ⟨htoken, hprevious⟩ := h.here hend
    rw [htoken, hprevious]
  ahead h := .inl h.lookahead
  put h _ _ _ _ _ _ hjumps := ⟨h.token, h.previous, h.lookahead, hjumps, h.here, h.ahead,
    h.deliveries, h.behind, h.ending⟩
  settle := by
    intro s t h hend
    refine ⟨h.token, h.token, h.lookahead, h.jumps, fun hnot => ?_, h.ahead, h.deliveries,
      h.behind, h.ending⟩
    rw [show s.token.isEnd = false from hnot] at hend
    cases hend
  advance h := h.advance
  escaped_put h := h.elim
  escaped_settle h := h.elim
  escaped_advance h := h.elim

/-- Whether a feed holds a chunk does not depend on where the input ends. -/
theorem run_of_ending {last last' : Delivery} (hlast : last.token.isEnd = true)
    (hsame : Same last.token last'.token) {value : Chunk}
    (h : (run options source ⟨deliveries, .ok last⟩).result = .ok value) :
    ∃ value', (run options source' ⟨deliveries, .ok last'⟩).result = .ok value' ∧
      Same value value' := by
  have hsound : (Pairing.ends (.ofFeed options source ⟨deliveries, .ok last⟩)
      (.ofFeed options source' ⟨deliveries, .ok last'⟩)).Sound := Pairing.sound_ends rfl rfl
  have hinitial : (State.initial options ⟨deliveries, .ok last⟩).Abreast
      (.initial options ⟨deliveries, .ok last'⟩) :=
    ⟨.refl _, .refl _, .refl _, .refl _, fun _ => ⟨rfl, rfl⟩, fun _ => ⟨rfl, rfl⟩, rfl, fun _ => rfl,
      last, last', rfl, rfl, hlast, hsame⟩
  have hstable := @Pairing.stable_chunk _ hsound nestingLimit
  rw [run_eq_levels] at h ⊢
  exact (hstable.meet _ _ hinitial).of_ok h id id

end Grammar

end LuaSyntax
