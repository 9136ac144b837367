import LuaSyntax.Proofs.Grammar.Depth.Levels
import LuaSyntax.Proofs.Grammar.Lockstep.Statement
import LuaSyntax.Proofs.Grammar.Grounded.Statement
import LuaSyntax.Proofs.Reading.Deliveries
import LuaSyntax.Parse

/-!
# Chunks on a ground

What nests no deeper than a number of levels builds on a ground, by induction on the number of levels.
A chunk takes a token if it has a statement; one without statements stands where the input ends. So if
all that a feed holds is grounded, then so are the chunk and the error that a parse of it may give.

The tokens of a feed that was read from a source are known if those are that a lexer reads. What may be
used to show that is anything that holds of a lexer at the beginning and that the reading of a token
preserves (`Ground.Covers`).
-/

namespace LuaSyntax

/-- A feed of which all tokens are known and stand in order. -/
structure Feed.Grounded (g : Ground) (feed : Feed) : Prop where
  tokens : ∀ delivery ∈ feed.stock, g.token delivery.token
  sorted : feed.stock.Pairwise fun a b => a.token.start.offset ≤ b.token.start.offset
  comments : ∀ delivery ∈ feed.stock, ∀ comment ∈ delivery.comments, g.demands.comment comment
  ending : ∀ error, feed.ending = .error error → g.error error

namespace Feed.Grounded

variable {g : Ground} {feed rest : Feed} {delivery : Delivery}

/-- What is taken from a feed is known, comes before what is left, and leaves a feed of that kind. -/
theorem next (h : feed.Grounded g) (hnext : feed.next = .ok (delivery, rest)) :
    delivery ∈ feed.stock ∧ rest.Grounded g ∧
      ∀ later ∈ rest.stock, delivery.token.start.offset ≤ later.token.start.offset := by
  obtain ⟨htokens, hsorted, hcomments, hending⟩ := h
  rcases Feed.stock_next hnext with ⟨hend, hstock⟩ | ⟨hend, hstock, hrest⟩
  · rw [hstock] at htokens hsorted hcomments ⊢
    obtain ⟨hfirst, hothers⟩ := List.pairwise_cons.mp hsorted
    refine ⟨List.mem_cons_self, ⟨?_, hothers, ?_, hend ▸ hending⟩, hfirst⟩
    · exact (List.forall_mem_cons.mp htokens).2
    · exact (List.forall_mem_cons.mp hcomments).2
  · rw [hstock] at htokens ⊢
    have htoken := List.forall_mem_singleton.mp htokens
    refine ⟨List.mem_cons_self, ⟨?_, ?_, ?_, ?_⟩, ?_⟩
    · rw [hrest]
      exact List.forall_mem_singleton.mpr htoken
    · rw [hrest]
      exact List.pairwise_singleton _ _
    · rw [hrest]
      exact List.forall_mem_singleton.mpr (List.forall_mem_nil _)
    · rw [hend]
      exact nofun
    · rw [hrest]
      exact List.forall_mem_singleton.mpr (Nat.le_refl _)

end Feed.Grounded

namespace Grammar

open Rule

variable {α : Type} {g : Ground} {base : State → Prop} {good : α → Prop} {start : Place}
  {nested : Nested}

/-! ## Levels -/

/-- A statement on the next level is known. -/
theorem nestedStatement_builds (hn : nested.Builds g) (ha : nested.Advances) :
    (nestedStatement nested).Builds g base fun v => ∀ statement ∈ v, statement.Meets g.demands := by
  refine (statement_builds hn ha).bind fun v hv => ?_
  cases v with
  | none => exact .give nofun
  | some statement => exact (Builds.complete _).bind fun _ _ => .give hv

/-- All levels of the grammar build on every ground, by induction on the levels. -/
theorem builds_levels (g : Ground) (level : Nat) : (levels level).Builds g := by
  induction level with
  | zero =>
    exact ⟨fun _ => .complain _, fun _ _ => .complain _, fun _ _ _ _ _ heq => by cases heq⟩
  | succ level ih =>
    have hadvances := advances_levels level
    exact ⟨fun _ => nestedStatement_builds ih hadvances, fun _ => operation_builds ih,
      operation_advances hadvances⟩

/-! ## The end of a chunk -/

/-- A part of a block takes a token. -/
theorem blockTurn_takes (ha : nested.Advances) (count : Nat) : (blockTurn nested).Leads
    (State.Past count) fun v s => v.items ≠ [] → State.Past (count + 1) s := by
  refine (steady_current count).bind fun token =>
    .ite (fun _ => .give fun _ _ h => absurd rfl h) fun _ => (steady_has _ count).bind fun _ =>
      (ha.statement count).bind fun _ => .ite (fun _ => .ite (fun _ => ?_) fun _ => ?_) fun _ => ?_
  · exact (steady_consume _ (count + 1)).bind fun _ => .give fun _ hs _ => hs
  · exact .give fun _ hs _ => hs
  · exact (steady_consume _ (count + 1)).bind fun _ => .give fun _ hs _ => hs

/-- A block that has a statement takes a token. -/
theorem statements_takes (ha : nested.Advances) {context : Context} {s s' : State}
    {body : List Statement} (hrun : statements nested context s = (.ok body, s')) (hbody : body ≠ []) :
    s.taken < s'.taken := by
  have hsteady : (blockTurn nested).Steady :=
    .of_stable fun context count => Pairing.stable_blockTurn (ha.fit context count)
  have hturn (items : List (Option Statement)) : (blockTurn nested).Leads
      (fun t => State.Past s.taken t ∧ (items ≠ [] → State.Past (s.taken + 1) t))
      fun v t => State.Past s.taken t ∧ (items ++ v.items ≠ [] → State.Past (s.taken + 1) t) := by
    cases items with
    | nil =>
      exact ((hsteady _).and (blockTurn_takes ha _)).mono (fun _ ht => ht.1) fun _ _ ht => ht
    | cons item rest =>
      refine ((hsteady _).and (hsteady _)).mono (fun _ ht => ht.2 (List.cons_ne_nil _ _)) ?_
      exact fun _ _ ht => ⟨Nat.le_of_succ_le ht.1, fun _ => ht.1⟩
  obtain ⟨items, t, hitems, hgive⟩ := bind_eq_ok.mp hrun
  cases hgive
  refine (Leads.repeated hturn context s items s' ⟨Nat.le_refl _, nofun⟩ hitems).2 fun hnil => ?_
  rw [hnil] at hbody
  exact hbody rfl

/-- Behind the statements the input has to end. A chunk without statements stands where it does. -/
theorem atEnd_builds {r : Rule α} {c : Bool} (hmarked : ∀ s, base s → s.Marked g start)
    (hbegun : c = false → ∀ s, base s → s.Begun g start) (hr : r.Builds g (State.Begun g start) good) :
    (current >>= fun token =>
      if !token.isEnd then
        refuse >>= fun _ : Unit =>
          if c then modify (fun state => { state with previous := state.token }) >>= fun _ => r else r
      else
        if c then modify (fun state => { state with previous := state.token }) >>= fun _ => r
        else r).Builds g base good := by
  intro pre _ hbase context s hof hs hpre
  show Fares g good pre ((if !s.token.isEnd then _ else _ : Rule α) context s)
  cases hend : s.token.isEnd with
  | false =>
    have hrefused : (refuse : Rule Unit).Builds g base fun _ => False := .refuse
    exact hrefused.bind (fun _ h => h.elim) pre hbase context s hof hs hpre
  | true =>
    cases c with
    | false => exact hr.on (hbegun rfl) pre hbase context s hof hs hpre
    | true =>
      have hsettled : ({ s with previous := s.token } : State).Grounded g :=
        ⟨Closed.settle hs.stocked hend, hs.scope, hs.jumps⟩
      obtain ⟨hfirst, hupcoming⟩ := hmarked s (hbase s hpre)
      obtain ⟨hknown, hle⟩ := hupcoming s.token List.mem_cons_self
      have hbegun : ({ s with previous := s.token } : State).Begun g start :=
        ⟨⟨hfirst, hupcoming⟩, hknown, Nat.le_trans hle (g.ordered hknown)⟩
      have hfares := hr (fun t => pre t ∧ t.Begun g start) (fun _ => And.right) context _ hof hsettled
        ⟨Closed.settle hpre hend, hbegun⟩
      exact ⟨fun v heq => (hfares.value v heq).imp_right fun ht => ⟨ht.1, ht.2.1⟩, hfares.error⟩

/-- The names without a declaration are known when they are taken out. -/
theorem takeUnresolved_builds : takeUnresolved.Builds g base
    fun names => ∀ found ∈ names, ∀ name ∈ found, g.demands.identifier name := by
  refine .read fun s hs _ => ?_
  obtain ⟨hnames, hscope⟩ := hs.scope.takeUnresolved
  exact (setScope_builds hscope).bind fun _ _ => .give hnames

/-- A whole chunk is known, an empty one too, which stands at the end of the input. -/
theorem chunkBody_builds (limit : Nat) : (chunkBody (levels limit)).Builds g base
    fun v => v.Meets g.demands := by
  have hlevels := builds_levels g limit
  refine .mark fun start => openScope_builds.bind fun _ _ => (openBlock_builds false).bind fun _ _ => ?_
  refine (statements_builds hlevels).countedToo (fun body => body ≠ [])
    (fun _ _ _ _ => statements_takes (advances_levels limit)) fun body hbody => ?_
  refine closeBlock_builds.bind fun _ _ => closeScope_builds.bind fun scope hscope => ?_
  refine atEnd_builds (fun _ hs => hs.1) (fun hempty s hs => hs.2 fun hnil => ?_) ?_
  · rw [hnil] at hempty
    cases hempty
  refine Builds.placed.bind fun placement hplacement => ?_
  refine takeUnresolved_builds.bind fun globals hglobals => .read fun s hs _ => ?_
  refine .context fun context _ => (Builds.complete _).bind fun _ _ => .give ?_
  refine ⟨meets_block hbody hscope, fun comments heq => ?_, hglobals, hplacement⟩
  change comments ∈ (if context.options.collectComments then some s.comments else none) at heq
  split at heq
  · exact Option.some.inj heq ▸ hs.stocked.comments
  · cases heq

/-! ## Whole parses -/

/-- Behind its first two tokens a parse is grounded. -/
theorem grounded_opened (options : ParseOptions) {feed rest rest' : Feed} {first second : Delivery}
    (h : feed.Grounded g) (hfirst : feed.next = .ok (first, rest))
    (hsecond : rest.next = .ok (second, rest')) :
    (shift (shift (.initial options feed) first rest) second rest').Grounded g := by
  obtain ⟨hmem, hrest, hle⟩ := h.next hfirst
  obtain ⟨hmem', hrest', hle'⟩ := hrest.next hsecond
  refine ⟨⟨?_, ?_, hrest'.comments, ?_, hrest'.ending⟩, ⟨?_, ?_⟩, ⟨?_, ?_⟩⟩
  · refine List.forall_mem_cons.mpr ⟨h.tokens _ hmem, List.forall_mem_cons.mpr
      ⟨hrest.tokens _ hmem', List.forall_mem_map.mpr hrest'.tokens⟩⟩
  · have hlater : ∀ later ∈ rest'.stock.map Delivery.token,
        second.token.start.offset ≤ later.start.offset := List.forall_mem_map.mpr hle'
    refine List.pairwise_cons.mpr ⟨List.forall_mem_cons.mpr ⟨hle _ hmem', fun later hlate => ?_⟩,
      List.pairwise_cons.mpr ⟨hlater, List.pairwise_map.mpr hrest'.sorted⟩⟩
    exact Nat.le_trans (hle _ hmem') (hlater later hlate)
  · exact List.forall_mem_append.mpr ⟨h.comments _ hmem, hrest.comments _ hmem'⟩
  all_goals exact List.forall_mem_nil _

instance : Closed fun _ => True := ⟨fun _ _ _ _ => trivial, fun _ _ => trivial, fun _ _ => trivial⟩

/-- A parse of known tokens gives a known chunk or a known error. -/
theorem fares_chunk {feed : Feed} (h : feed.Grounded g) (limit : Nat) :
    Fares g (fun v => v.Meets g.demands) (fun _ => True)
      (chunkOver (levels limit) (.ofFeed g.options g.source feed) (.initial g.options feed)) := by
  have hfails {error : ParseError} {t : State} (herror : g.error error) :
      Fares g (fun v : Chunk => v.Meets g.demands) (fun _ => True) (.error error, t) :=
    ⟨nofun, fun _ heq => Except.error.inj heq ▸ herror⟩
  cases hfirst : advance (.ofFeed g.options g.source feed) (.initial g.options feed) with
  | mk x s =>
    cases x with
    | error error =>
      rw [chunkOver, bind_of_error hfirst]
      exact hfails (h.ending error (ending_of_advance hfirst))
    | ok _ =>
      rw [chunkOver, bind_of_ok hfirst]
      obtain ⟨first, rest, hnext, rfl⟩ := advance_eq_ok.mp hfirst
      cases hsecond : advance (.ofFeed g.options g.source feed)
          (shift (.initial g.options feed) first rest) with
      | mk x t =>
        cases x with
        | error error =>
          rw [bind_of_error hsecond]
          exact hfails ((h.next hnext).2.1.ending error (ending_of_advance hsecond))
        | ok _ =>
          rw [bind_of_ok hsecond]
          obtain ⟨second, rest', hnext', rfl⟩ := advance_eq_ok.mp hsecond
          have hbody : (chunkBody (levels limit)).Builds g (fun _ => True) fun v => v.Meets g.demands :=
            chunkBody_builds limit
          exact hbody (fun _ => True) (fun _ h => h) _ _ ⟨rfl, rfl, fun h => g.blamed h _ _⟩
            (grounded_opened g.options h hnext hnext') trivial

/-- If all that a feed holds is grounded, then a parse of it gives a chunk that meets what is asked, or
a known error. -/
theorem run_grounded (g : Ground) {feed : Feed} (h : feed.Grounded g) :
    (∀ chunk, (run g.options g.source feed).result = .ok chunk → chunk.Meets g.demands) ∧
      ∀ error, (run g.options g.source feed).result = .error error → g.error error := by
  obtain ⟨hvalue, herror⟩ := fares_chunk h nestingLimit
  rw [result_run]
  exact ⟨fun chunk heq => (hvalue chunk heq).1, herror⟩

end Grammar

/-! ## Feeds that were read -/

/-- What is known of lexers is enough to know all that they read. -/
structure Ground.Covers (g : Ground) (known : Lexer → Prop) : Prop where
  sited : ∀ {lexer : Lexer}, known lexer → ∃ text, lexer.Sited text
  next : ∀ {lexer after : Lexer} {token : Token}, known lexer → lexer.next = (.ok token, after) →
    token.isEnd = false → known after.drain.2
  token : ∀ {lexer after : Lexer} {token : Token}, known lexer → lexer.next = (.ok token, after) →
    g.token token ∧ ∀ comment ∈ after.comments, g.demands.comment comment
  error : ∀ {lexer after : Lexer} {error : ParseError}, known lexer →
    lexer.next = (.error error, after) → g.error error

namespace Ground.Covers

variable {g : Ground} {known : Lexer → Prop} {lexer last : Lexer} {deliveries : List Delivery}

/-- What was read, with something known for an ending, is grounded. -/
theorem grounded (h : g.Covers known) (hl : known lexer) (hreads : lexer.Reads deliveries last)
    {ending : Except ParseError Delivery}
    (hok : ∀ delivery, ending = .ok delivery → g.token delivery.token ∧
      (∀ comment ∈ delivery.comments, g.demands.comment comment) ∧
        (deliveries = [] ∨ last.place.offset ≤ delivery.token.start.offset))
    (herror : ∀ error, ending = .error error → g.error error) :
    (⟨deliveries, ending⟩ : Feed).Grounded g := by
  obtain ⟨text, hsited⟩ := h.sited hl
  obtain ⟨-, hbetween, hsorted⟩ := hreads.sorted hsited
  obtain ⟨-, hholds⟩ := hreads.holds hl h.next
  have hknown : ∀ delivery ∈ deliveries, g.token delivery.token ∧
      ∀ comment ∈ delivery.comments, g.demands.comment comment := by
    intro delivery hmem
    obtain ⟨stop, after, hstop, hnext, hcomments⟩ := hholds delivery hmem
    exact hcomments ▸ h.token hstop hnext
  have hlast : ∀ delivery ∈ ending.toOption.toList, g.token delivery.token ∧
      (∀ comment ∈ delivery.comments, g.demands.comment comment) ∧
        (deliveries = [] ∨ last.place.offset ≤ delivery.token.start.offset) := by
    intro delivery hmem
    cases ending with
    | error error => cases hmem
    | ok final =>
      obtain rfl := List.mem_singleton.mp hmem
      exact hok _ rfl
  refine ⟨List.forall_mem_append.mpr ⟨fun d hd => (hknown d hd).1, fun d hd => (hlast d hd).1⟩, ?_,
    List.forall_mem_append.mpr ⟨fun d hd => (hknown d hd).2, fun d hd => (hlast d hd).2.1⟩, herror⟩
  refine List.pairwise_append.mpr ⟨hsorted, ?_, fun a ha b hb => ?_⟩
  · cases ending with
    | error error => exact .nil
    | ok final => exact List.pairwise_singleton _ _
  · refine Nat.le_trans (hbetween a ha).2 ((hlast b hb).2.2.resolve_left ?_)
    rintro rfl
    cases ha

/-- All that a lexer reads up to the end or the first error is grounded. -/
theorem grounded_reading (h : g.Covers known) (hl : known lexer) : lexer.reading.Grounded g := by
  obtain ⟨text, hsited⟩ := h.sited hl
  obtain ⟨last, hreads, hending⟩ := hsited.reads_reading
  obtain ⟨hlast, -⟩ := hreads.holds hl h.next
  obtain ⟨text', hsited'⟩ := h.sited hlast
  have hreading : lexer.reading = ⟨lexer.reading.deliveries, lexer.reading.ending⟩ := rfl
  rcases hending with ⟨error, after, hnext, heq⟩ | ⟨token, after, hnext, -, heq⟩
  · rw [hreading, heq]
    refine h.grounded hl hreads (fun _ hok => by cases hok) fun error' herror => ?_
    exact Except.error.inj herror ▸ h.error hlast hnext
  · rw [hreading, heq]
    refine h.grounded hl hreads (fun delivery hok => ?_) fun _ herror => by cases herror
    obtain rfl := Except.ok.inj hok
    obtain ⟨htoken, hcomments⟩ := h.token hlast hnext
    exact ⟨htoken, hcomments, .inr (Lexer.offset_le_of_next hsited'.rest_eq hnext).1⟩

/-- Whatever a source is parsed to is grounded. -/
theorem parsed (h : g.Covers known) (hl : known (.start g.options g.source)) :
    (∀ chunk, parse g.options g.source = .ok chunk → chunk.Meets g.demands) ∧
      ∀ error, parse g.options g.source = .error error → g.error error :=
  Grammar.run_grounded g (Lexer.feed_eq_reading g.options g.source ▸ h.grounded_reading hl)

end Ground.Covers

end LuaSyntax
