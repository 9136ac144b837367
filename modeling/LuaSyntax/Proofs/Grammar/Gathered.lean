import LuaSyntax.Proofs.Grammar.Depth.Levels
import LuaSyntax.Proofs.Grammar.Endings
import LuaSyntax.Proofs.Grammar.Grounded.Places
import LuaSyntax.Proofs.Reading.Tiling

/-!
# The comments of a chunk

A parse takes its comments with the tokens behind them and keeps them in order. When the end of the input
has come in view there are none left, so an accepted chunk has all the comments of its source, each once
and in the order in which they stand.
-/

namespace LuaSyntax

namespace Feed

variable {feed rest : Feed} {delivery : Delivery}

/-- The comments that a feed still delivers. -/
def comments (feed : Feed) : List Comment := feed.stock.flatMap Delivery.comments

/-- What is taken from a feed takes the first of its comments along. -/
theorem comments_next (h : feed.next = .ok (delivery, rest)) :
    feed.comments = delivery.comments ++ rest.comments := by
  rcases stock_next h with ⟨-, hstock⟩ | ⟨-, hstock, hrest⟩
  · rw [comments, hstock]
    rfl
  · rw [comments, comments, hstock, hrest]
    rfl

/-- Whether only the last delivery of a feed is the end of the input. -/
def EndsOnce (feed : Feed) : Prop := ∀ delivery ∈ feed.deliveries, delivery.token.isEnd = false

/-- Behind the end of the input there are no comments. -/
theorem EndsOnce.next (h : feed.EndsOnce) (hnext : feed.next = .ok (delivery, rest)) :
    rest.EndsOnce ∧ (delivery.token.isEnd = true → rest.comments = []) := by
  obtain ⟨deliveries, ending⟩ := feed
  cases deliveries with
  | cons first others =>
    obtain ⟨rfl, rfl⟩ := Prod.mk.inj (Except.ok.inj hnext)
    obtain ⟨hfirst, hothers⟩ := List.forall_mem_cons.mp h
    refine ⟨hothers, fun hend => ?_⟩
    rw [hfirst] at hend
    cases hend
  | nil =>
    cases ending with
    | error error => cases hnext
    | ok last =>
      obtain ⟨rfl, rfl⟩ := Prod.mk.inj (Except.ok.inj hnext)
      exact ⟨List.forall_mem_nil _, fun _ => rfl⟩

/-- Where no comments are to come, there are none behind the next token. -/
theorem comments_next_of_nil (h : feed.comments = []) (hnext : feed.next = .ok (delivery, rest)) :
    rest.comments = [] := by
  rw [comments_next hnext] at h
  exact (List.append_eq_nil_iff.mp h).2

end Feed

namespace Grammar

open Rule

variable {all : List Comment}

/-- A state that has met the first of some comments and still has to meet the others; none if the end of
the input has come in view. -/
structure State.Gathers (all : List Comment) (s : State) : Prop where
  total : s.comments ++ s.feed.comments = all
  ends : s.feed.EndsOnce
  token : s.token.isEnd = true → s.feed.comments = []
  lookahead : s.lookahead.isEnd = true → s.feed.comments = []

instance (all : List Comment) : Closed (State.Gathers all) where
  put h _ _ _ := ⟨h.total, h.ends, h.token, h.lookahead⟩
  settle h _ := ⟨h.total, h.ends, h.token, h.lookahead⟩
  advance := by
    intro context s t h hrun
    obtain ⟨delivery, feed, hnext, rfl⟩ := advance_eq_ok.mp hrun
    obtain ⟨hends, hlast⟩ := h.ends.next hnext
    refine ⟨?_, hends, fun hend => Feed.comments_next_of_nil (h.lookahead hend) hnext, hlast⟩
    have htotal := h.total
    rw [Feed.comments_next hnext, ← List.append_assoc] at htotal
    exact htotal

/-- The part of a chunk behind which only its end can stand keeps what was met. -/
theorem keeps_statements (limit : Nat) : (statements (levels limit)).Keeps (State.Gathers all) :=
  Pairing.Stable.keeps fun _ => Pairing.stable_statements (Pairing.fit_levels limit)

/-- Behind its statements a chunk gets all comments that were to be met. -/
theorem chunkBody_gathers (limit : Nat) {context : Context} {s s' : State} {value : Chunk}
    (hs : s.Gathers all) (h : chunkBody (levels limit) context s = (.ok value, s')) :
    value.comments = if context.options.collectComments then some all else none := by
  obtain ⟨start, s₁, h₁, h⟩ := bind_eq_ok.mp h
  have hs := Pairing.Stable.keeps (fun _ => Pairing.stable_mark) _ _ _ _ hs h₁
  obtain ⟨_, s₂, h₂, h⟩ := bind_eq_ok.mp h
  have hs := Pairing.Stable.keeps (fun _ => Pairing.stable_openScope) _ _ _ _ hs h₂
  obtain ⟨_, s₃, h₃, h⟩ := bind_eq_ok.mp h
  have hs := Pairing.Stable.keeps (fun _ => Pairing.stable_openBlock false) _ _ _ _ hs h₃
  obtain ⟨body, s₄, h₄, h⟩ := bind_eq_ok.mp h
  have hs := keeps_statements limit _ _ _ _ hs h₄
  obtain ⟨_, s₅, h₅, h⟩ := bind_eq_ok.mp h
  have hs := Pairing.Stable.keeps (fun _ => Pairing.stable_closeBlock) _ _ _ _ hs h₅
  obtain ⟨scope, s₆, h₆, h⟩ := bind_eq_ok.mp h
  have hs := Pairing.Stable.keeps (fun _ => Pairing.stable_closeScope) _ _ _ _ hs h₆
  obtain ⟨token, _, hcurrent, h⟩ := bind_eq_ok.mp h
  cases hcurrent
  cases hend : s₆.token.isEnd with
  | false =>
    rw [hend, Bool.not_false, if_pos rfl] at h
    obtain ⟨error, hrefuse⟩ : ∃ error, (refuse : Rule Unit) context s₆ = (.error error, s₆) :=
      fails_refuse context s₆
    rw [bind_of_error hrefuse] at h
    cases h
  | true =>
    have htotal : s₆.comments = all := by
      rw [← hs.total, hs.token hend, List.append_nil]
    rw [hend, Bool.not_true, if_neg Bool.false_ne_true] at h
    rw [← htotal]
    cases hempty : body.isEmpty with
    | false =>
      rw [hempty, if_neg Bool.false_ne_true] at h
      cases h
      rfl
    | true =>
      rw [hempty, if_pos rfl] at h
      cases h
      rfl

/-- An accepted feed gives a chunk with all of its comments. -/
theorem comments_of_run {options : ParseOptions} {source : Text} {feed : Feed} {value : Chunk}
    (hends : feed.EndsOnce) (h : (run options source feed).result = .ok value) :
    value.comments = if options.collectComments then some feed.comments else none := by
  rw [run_eq_levels, Outcome.of] at h
  cases hrun : chunkOver (levels nestingLimit) (.ofFeed options source feed) (.initial options feed) with
  | mk result s' =>
    simp only [hrun] at h
    subst h
    obtain ⟨first, feed₁, second, feed₂, hfirst, hsecond, hbody⟩ := chunk_eq_ok.mp hrun
    obtain ⟨hends₁, hlast₁⟩ := hends.next hfirst
    obtain ⟨hends₂, hlast₂⟩ := hends₁.next hsecond
    refine chunkBody_gathers nestingLimit ?_ hbody
    refine ⟨?_, hends₂, fun hend => Feed.comments_next_of_nil (hlast₁ hend) hsecond, hlast₂⟩
    have htotal := Feed.comments_next hfirst
    rw [Feed.comments_next hsecond, ← List.append_assoc] at htotal
    exact htotal.symm

end Grammar

/-! ## The tiles of a source -/

variable {options : ParseOptions} {source : Text}

/-- What is known of each lexer on the way through a source. -/
structure Lexer.Clear (options : ParseOptions) (source : Text) (lexer : Lexer) : Prop where
  options_eq : lexer.options = options
  source_eq : lexer.source = source
  comments_eq : lexer.comments = []
  sited : ∃ text, lexer.Sited text

/-- At its beginning a lexer has met no comments. -/
theorem Lexer.clear_start (options : ParseOptions) (source : Text) :
    (Lexer.start options source).Clear options source := by
  obtain ⟨text, hsited, -⟩ := Lexer.sited_start options source
  refine ⟨Lexer.options_start options source, Lexer.source_start options source, ?_, text, hsited⟩
  rw [Lexer.start, Lexer.skipShebang]
  split <;> rfl

/-- Between two deliveries a lexer keeps no comments. -/
theorem Lexer.Clear.next {lexer after : Lexer} {token : Token} (h : lexer.Clear options source)
    (hn : lexer.next = (.ok token, after)) (hend : token.isEnd = false) :
    after.drain.2.Clear options source := by
  obtain ⟨text, hsited⟩ := h.sited
  obtain ⟨rest, hrest, -⟩ := hsited.next hn hend
  exact ⟨(Lexer.options_next hsited.rest_eq hn).trans h.options_eq,
    (Lexer.source_next hsited.rest_eq hn).trans h.source_eq, rfl, rest, hrest.drain⟩

/-- The end of the input is read at the end of the source, and nothing is left behind it. -/
theorem Lexer.span_of_end {lexer after : Lexer} {text : Text} {token : Token} (h : lexer.Sited text)
    (hn : lexer.next = (.ok token, after)) (hend : token.isEnd = true) :
    token.span = .emptyAt (Text.size lexer.source) ∧ after.rest = some [] := by
  obtain ⟨-, hbehind⟩ | ⟨hno, -⟩ := Lexer.length_of_next h.rest_eq hn
  · obtain ⟨-, value, length, hread, rfl, rfl⟩ := (Lexer.next_eq_ok h.rest_eq).mp hn
    have hstop := Trivia.offset_stop lexer.options lexer.source lexer.place text
    rw [hbehind, h.size_source] at hstop
    refine ⟨?_, by rw [Lexer.behind, hbehind, List.drop_nil]⟩
    rw [Token.span, Lexer.tokenOf, hbehind, List.take_nil]
    show (⟨(lexer.trivia text).stop.offset, (lexer.trivia text).stop.offset⟩ : Span) = _
    rw [show (lexer.trivia text).stop.offset = Text.size lexer.source from hstop, Span.emptyAt]
  · rw [hend] at hno
    cases hno

/-- The lexer of a source begins behind the line that names an interpreter. -/
theorem Lexer.rest_start (options : ParseOptions) (source : Text) :
    ∃ text, (Lexer.start options source).rest = some text ∧ source = source.interpreterLine ++ text ∧
      (Lexer.start options source).place.offset = Text.size source.interpreterLine := by
  rw [Text.interpreterLine]
  by_cases hshebang : source.take 2 = ['#', '!']
  · rw [Lexer.start_of_shebang hshebang, if_pos hshebang]
    exact ⟨_, rfl, List.prefix_append_drop (List.takeWhile_prefix _), rfl⟩
  · rw [Lexer.start_of_not_shebang hshebang, if_neg hshebang]
    refine ⟨source, ?_, rfl, rfl⟩
    cases source <;> rfl

/-- The tokens and comments of a source that holds nothing else tile it, behind a first line that names an
interpreter and up to its end. Each token but the end has some text between two points of the source, and
an accepted source has exactly these comments. -/
theorem source_tiled {tokens : List Token} (hcollect : options.collectComments = true)
    (h : tokenize options source = .ok tokens) :
    ∃ deliveries last, Lexer.feed options source = ⟨deliveries, .ok last⟩ ∧
      tokens = (deliveries ++ [last]).map Delivery.token ∧
      (∃ text, source = source.interpreterLine ++ text ∧
        Tiled (Text.size source.interpreterLine) ((deliveries ++ [last]).flatMap Delivery.tiles) text) ∧
      (∀ delivery ∈ deliveries, delivery.token.isEnd = false ∧
        delivery.token.start.offset < delivery.token.stop.offset ∧
          source.IsBoundary delivery.token.start.offset ∧
            source.IsBoundary delivery.token.stop.offset) ∧
      last.token.isEnd = true ∧ last.token.span = .emptyAt (Text.size source) ∧
      ∀ chunk, parse options source = .ok chunk →
        chunk.comments = some ((deliveries ++ [last]).flatMap Delivery.comments) := by
  obtain ⟨text, hrest, htext, hoffset⟩ := Lexer.rest_start options source
  have hclear := Lexer.clear_start options source
  obtain ⟨text', hsited⟩ := hclear.sited
  obtain rfl : text = text' := Option.some.inj (hrest.symm.trans hsited.rest_eq)
  obtain ⟨stop, hreads, hending⟩ := hsited.reads_reading
  obtain ⟨hstop, hread⟩ := hreads.holds hclear Lexer.Clear.next
  obtain ⟨last, hlast⟩ := tokenize_eq_ok h
  have hfeed := Lexer.feed_eq_reading options source
  rw [← hfeed] at hreads hending hread
  obtain ⟨error, after, -, herror⟩ | ⟨token, after, hnext, hend, heq⟩ := hending
  · rw [herror] at hlast
    cases hlast
  obtain rfl : last = ⟨token, after.comments⟩ := Except.ok.inj (hlast.symm.trans heq)
  obtain ⟨text', hsited'⟩ := hstop.sited
  obtain ⟨hspan, hnil⟩ := Lexer.span_of_end hsited' hnext hend
  have hall : Lexer.feed options source =
      ⟨(Lexer.feed options source).deliveries, .ok ⟨token, after.comments⟩⟩ := by rw [← heq]
  refine ⟨_, _, hall, ?_, ⟨text, htext, ?_⟩, fun delivery hmem => ?_, hend, ?_, fun chunk hparse => ?_⟩
  · rw [tokenize, Feed.tokens, heq] at h
    rw [List.map_append]
    exact (Except.ok.inj h).symm
  · rw [← hoffset, List.flatMap_append]
    have hstart : (Lexer.start options source).options.collectComments = true := by
      rw [hclear.options_eq, hcollect]
    have hlast : stop.options.collectComments = true := by rw [hstop.options_eq, hcollect]
    refine hreads.tiled hsited hstart hclear.comments_eq fun rest hrest => ?_
    refine Lexer.tiled_next hlast hstop.comments_eq hrest hnext fun rest' hrest' => ?_
    obtain rfl := Option.some.inj (hnil.symm.trans hrest')
    exact List.forall_mem_nil _
  · obtain ⟨lexer, behind, hlexer, hn, -⟩ := hread delivery hmem
    obtain ⟨text', hsited⟩ := hlexer.sited
    have hnoEnd := isEnd_of_feed options source delivery hmem
    obtain ⟨hfirst, hsecond, -⟩ := (Lexer.feed_grounded options source).tokens delivery
      (List.mem_append_left _ hmem)
    exact ⟨hnoEnd, Lexer.start_lt_stop_of_next hsited.rest_eq hn hnoEnd, hfirst.1, hsecond.1⟩
  · rw [hspan, hstop.source_eq]
  · have hcomments := Grammar.comments_of_run (isEnd_of_feed options source) hparse
    rw [hcollect, if_pos rfl] at hcomments
    rw [hcomments, Feed.comments, Feed.stock, heq]
    rfl

/-- A source with a shebang, comments and a long string. -/
theorem source_tiled_commented :
    ∃ tokens, tokenize { collectComments := true } "#!lua\n--a\nlocal x--[[b\n]]=f [[c]] -- d".toList =
        .ok tokens ∧
      ∃ deliveries last, tokens = (deliveries ++ [last]).map Delivery.token ∧
        Tiled 5 ((deliveries ++ [last]).flatMap Delivery.tiles)
          "\n--a\nlocal x--[[b\n]]=f [[c]] -- d".toList := by
  have haccepted : (tokenize { collectComments := true }
      "#!lua\n--a\nlocal x--[[b\n]]=f [[c]] -- d".toList).toBool = true := by
    decide +kernel
  cases htokens : tokenize { collectComments := true }
      "#!lua\n--a\nlocal x--[[b\n]]=f [[c]] -- d".toList with
  | error error =>
    rw [htokens] at haccepted
    cases haccepted
  | ok tokens =>
    obtain ⟨deliveries, last, -, hall, ⟨text, htext, htiled⟩, -⟩ := source_tiled rfl htokens
    obtain rfl := List.append_cancel_left (htext.symm.trans
      (show _ = "#!lua".toList ++ "\n--a\nlocal x--[[b\n]]=f [[c]] -- d".toList from rfl))
    exact ⟨tokens, rfl, deliveries, last, hall, htiled⟩

end LuaSyntax
