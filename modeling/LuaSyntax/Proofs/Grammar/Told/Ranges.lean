import LuaSyntax.Proofs.Grammar.Depth.Levels
import LuaSyntax.Proofs.Grammar.Grounded.Chunk
import LuaSyntax.Proofs.Grammar.Told.Statement
import LuaSyntax.Proofs.Reading.Slices
import LuaSyntax.Proofs.Tree.Parts

/-!
# Ranges are spans of tokens and nest

A node begins where the token began that a parse stood at, and ends where the token ended that was taken
last. Tokens do not overlap and a node takes at least one. So the nodes that are told of one behind the
other stand one behind the other, and those that are told of while a node is read stand inside it.

`State.Surveyed` is the invariant: what was told of since some state lies in a row between the token of
that state and each token that is still to come.
-/

namespace LuaSyntax

/-! ## Spans in a row -/

/-- Whether some spans are all there, none of them empty, and stand between two offsets one behind the
other. -/
def InRow : Nat → List (Option Span) → Nat → Prop
  | start, [], stop => start ≤ stop
  | start, span? :: others, stop =>
    ∃ span, span? = some span ∧ start ≤ span.start ∧ span.start < span.stop ∧ InRow span.stop others stop

section

variable {start between stop : Nat} {spans others : List (Option Span)}

/-- Spans in a row do not go back. -/
theorem InRow.le (h : InRow start spans stop) : start ≤ stop := by
  induction spans generalizing start with
  | nil => exact h
  | cons span? rest ih =>
    obtain ⟨span, -, hstart, hlt, hrest⟩ := h
    have := ih hrest
    omega

/-- Rows of spans may stand one behind the other. -/
theorem InRow.append (h : InRow start spans between) (h' : InRow between others stop) :
    InRow start (spans ++ others) stop := by
  induction spans generalizing start with
  | nil =>
    cases others with
    | nil => exact Nat.le_trans h h'
    | cons span? rest =>
      obtain ⟨span, heq, hstart, hrest⟩ := h'
      exact ⟨span, heq, Nat.le_trans h hstart, hrest⟩
  | cons span? rest ih =>
    obtain ⟨span, heq, hstart, hlt, hrest⟩ := h
    exact ⟨span, heq, hstart, hlt, ih hrest⟩

/-- A row of spans may end later than its last span. -/
theorem InRow.stretch (h : InRow start spans between) (hle : between ≤ stop) : InRow start spans stop :=
  List.append_nil spans ▸ h.append (show InRow between [] stop from hle)

/-- Each span of a row stands between its ends. -/
theorem InRow.forall_mem (h : InRow start spans stop) : ∀ span? ∈ spans, ∃ span, span? = some span ∧
    start ≤ span.start ∧ span.start < span.stop ∧ span.stop ≤ stop := by
  induction spans generalizing start with
  | nil => exact List.forall_mem_nil _
  | cons span? rest ih =>
    obtain ⟨span, heq, hstart, hlt, hrest⟩ := h
    refine List.forall_mem_cons.mpr ⟨⟨span, heq, hstart, hlt, hrest.le⟩, fun other hmem => ?_⟩
    obtain ⟨later, heq', hstart', hlater⟩ := ih hrest other hmem
    exact ⟨later, heq', by omega, hlater⟩

/-- Each span of a row ends where the next begins or before that. -/
theorem InRow.pairwise (h : InRow start spans stop) :
    spans.Pairwise fun a b => ∀ span ∈ a, ∀ later ∈ b, span.stop ≤ later.start := by
  induction spans generalizing start with
  | nil => exact .nil
  | cons span? rest ih =>
    obtain ⟨span, rfl, -, -, hrest⟩ := h
    refine List.pairwise_cons.mpr ⟨fun other hmem found hfound later hlater => ?_, ih hrest⟩
    obtain rfl := Option.some.inj hfound
    obtain ⟨_, rfl, hstart, -⟩ := hrest.forall_mem other hmem
    exact Option.some.inj hlater ▸ hstart

end

/-- The range of a node, as that of an item. -/
def Item.spans : Item → List (Option Span)
  | .node inner => [inner.placement.range]
  | _ => []

/-- What is later known of a name does not change its span. -/
theorem Item.spans_asRead (item : Item) : item.asRead.spans = item.spans := by
  cases item with
  | node inner => exact congrArg (fun placement => [placement.range]) inner.placement_asRead
  | _ => rfl

/-- The ranges of what a node is made of are those of its children. -/
theorem Node.spans_items (node : Node) :
    node.items.flatMap Item.spans = node.children.map fun child => child.placement.range := by
  have hending : (node.block?.toList.map Block.ending).flatMap Item.spans = [] := by
    cases node.block? <;> rfl
  rw [Node.items_eq, List.flatMap_append, hending, List.append_nil, List.flatMap_map]
  exact List.map_eq_flatMap.symm

/-- What is known of the ranges of what a name is made of does not depend on whether it is local. -/
theorem Node.spans_items_asRead (node : Node) :
    node.asRead.items.flatMap Item.spans = node.items.flatMap Item.spans := by
  cases node <;> rfl

/-- A node that stands between the beginning of one known token and the end of another, and around what it
is made of. -/
def Node.Spans (known : Token → Prop) (node : Node) : Prop :=
  ∃ first last, known first ∧ first.isEnd = false ∧ known last ∧ last.isEnd = false ∧
    node.placement.range = some ⟨first.start.offset, last.stop.offset⟩ ∧
    first.start.offset < last.stop.offset ∧
    InRow first.start.offset (node.items.flatMap Item.spans) last.stop.offset

/-- What is later known of a name does not change which tokens it spans. -/
theorem Node.spans_asRead {known : Token → Prop} {node : Node} :
    node.asRead.Spans known ↔ node.Spans known := by
  rw [Node.Spans, Node.Spans, Node.placement_asRead, Node.spans_items_asRead]

/-- A chunk that stands between the beginning of one known token and the end of another, and around its
statements. One without statements ends where the input does. -/
def Chunk.Spans (known : Token → Prop) (chunk : Chunk) : Prop :=
  ∃ first last, known first ∧ known last ∧
    (first.isEnd = false ∧ last.isEnd = false ∨ chunk.body.statements = [] ∧ last.isEnd = true) ∧
    chunk.placement.range = some ⟨first.start.offset, last.stop.offset⟩ ∧
    first.start.offset ≤ last.stop.offset ∧
    InRow first.start.offset (chunk.body.items.flatMap Item.spans) last.stop.offset

namespace Grammar

open Rule

variable {g : Ground} {context : Context} {origin s t : State} {items : List Item}

/-! ## Tokens that do not overlap -/

/-- A state before tokens that do not overlap, the end as often as it is asked for. -/
structure State.Apart (s : State) : Prop where
  upcoming : s.upcoming.Pairwise fun a b => a.isEnd = false → a.stop.offset ≤ b.start.offset
  ending : ∀ last, s.feed.ending = .ok last → last.token.isEnd = true

/-- The token that is taken ends where those that are still to come begin or before that. -/
theorem State.Apart.stop_le (h : s.Apart) (hend : s.token.isEnd = false)
    (hrun : advance context s = (.ok (), t)) :
    ∀ token ∈ t.upcoming, s.token.stop.offset ≤ token.start.offset := by
  intro token hmem
  refine (List.pairwise_cons.mp h.upcoming).1 token ?_ hend
  rcases State.upcoming_advance hrun with hcons | ⟨last, hs, ht⟩
  · exact (List.cons.inj hcons).2 ▸ hmem
  · rw [(List.cons.inj hs).2]
    rw [ht] at hmem
    simp only [List.mem_cons, List.not_mem_nil, or_false, or_self] at hmem ⊢
    exact hmem

instance : Closed State.Apart where
  put h _ _ _ := ⟨h.upcoming, h.ending⟩
  settle h _ := ⟨h.upcoming, h.ending⟩
  advance := by
    intro context s t ⟨hupcoming, hending⟩ hrun
    obtain ⟨delivery, feed, hnext, rfl⟩ := advance_eq_ok.mp hrun
    obtain ⟨⟨deliveries, ending⟩, taken, previous, token, lookahead⟩ := s
    cases deliveries with
    | cons first others =>
      obtain ⟨rfl, rfl⟩ := Prod.mk.inj (Except.ok.inj hnext)
      exact ⟨(List.pairwise_cons.mp hupcoming).2, hending⟩
    | nil =>
      cases ending with
      | error error => cases hnext
      | ok last =>
        obtain ⟨rfl, rfl⟩ := Prod.mk.inj (Except.ok.inj hnext)
        have hlast := hending _ rfl
        refine ⟨?_, fun later heq => Except.ok.inj heq ▸ hlast⟩
        obtain ⟨hahead, -⟩ := List.pairwise_cons.mp (List.pairwise_cons.mp hupcoming).2
        have hno {stop start : Nat} (hfalse : last.token.isEnd = false) : stop ≤ start := by
          rw [hlast] at hfalse
          cases hfalse
        have hlater : lookahead.isEnd = false → lookahead.stop.offset ≤ last.token.start.offset :=
          hahead last.token List.mem_cons_self
        exact .cons (List.forall_mem_cons.mpr ⟨hlater, List.forall_mem_singleton.mpr hlater⟩)
          (.cons (List.forall_mem_singleton.mpr hno) (List.pairwise_singleton _ _))

/-! ## The invariant -/

/-- To open a scope changes nothing but books. -/
theorem openScope_put (h : openScope context s = (.ok (), t)) :
    ∃ scope log, t = s.put scope log s.jumps := by
  rw [openScope_eq] at h
  obtain rfl := (Prod.mk.inj h).2
  split
  · exact ⟨_, _, rfl⟩
  · exact ⟨s.scope, s.log, rfl⟩

/-- To close a scope changes nothing but books. -/
theorem closeScope_put {scope : Option (List Binding)} (h : closeScope context s = (.ok scope, t)) :
    ∃ scope log, t = s.put scope log s.jumps := by
  rw [closeScope_eq] at h
  obtain rfl := (Prod.mk.inj h).2
  split
  · exact ⟨_, _, rfl⟩
  · exact ⟨s.scope, s.log, rfl⟩

/-- What does not depend on the books and survives the taking of a token survives a parse. -/
theorem Told.keeps {Q : State → Prop} [Closed Q] (h : Told context origin items s) (horigin : Q origin) :
    Q s := by
  induction h with
  | nothing => exact horigin
  | token _ _ hrun ih => exact Closed.advance (ih horigin) hrun
  | jumps _ jumps ih => exact Closed.put (ih horigin) _ _ jumps
  | unresolved _ _ ih => exact Closed.put (ih horigin) _ _ _
  | declared _ _ _ ih => exact Closed.put (ih horigin) _ _ _
  | opened _ hrun ih =>
    obtain ⟨_, _, rfl⟩ := openScope_put hrun
    exact Closed.put (ih horigin) _ _ _
  | closed _ hrun ih =>
    obtain ⟨_, _, rfl⟩ := closeScope_put hrun
    exact Closed.put (ih horigin) _ _ _
  | renamed _ _ ih => exact ih horigin
  | node _ _ _ _ _ ih ih' => exact Closed.put (ih' (ih horigin)) _ _ _

/-- Where the token taken last does not end before a node began, the node ends with it. -/
theorem State.range_ending (hrecord : context.options.recordRanges = true)
    (h : origin.token.start.offset ≤ s.previous.stop.offset) :
    (origin.ending context s).range = some ⟨origin.token.start.offset, s.previous.stop.offset⟩ := by
  rw [State.ending, Placement.between, if_pos hrecord, Nat.max_eq_left h]

/-- What is known of the token that was taken last, if one was taken since some state. -/
structure State.Moved (g : Ground) (origin : State) (items : List Item) (s : State) : Prop where
  begun : origin.token.isEnd = false
  known : g.token s.previous
  isEnd : s.previous.isEnd = false
  lt : origin.token.start.offset < s.previous.stop.offset
  inRow : InRow origin.token.start.offset (items.flatMap Item.spans) s.previous.stop.offset
  upcoming : ∀ token ∈ s.upcoming, s.previous.stop.offset ≤ token.start.offset

/-- What is known of the places of what was told of since some state. -/
structure State.Surveyed (g : Ground) (origin : State) (items : List Item) (s : State) : Prop where
  upcoming : ∀ token ∈ s.upcoming,
    InRow origin.token.start.offset (items.flatMap Item.spans) token.start.offset
  still : origin.taken = s.taken → s.token = origin.token
  moved : origin.taken < s.taken → origin.Moved g items s
  spans : ∀ node ∈ items.flatMap Item.told, node.Spans g.token

/-- What was surveyed does not depend on books. -/
theorem State.Surveyed.put (h : origin.Surveyed g items s) (scope : Scope) (log : List Event)
    (jumps : Jumps) : origin.Surveyed g items (s.put scope log jumps) :=
  ⟨h.upcoming, h.still, fun hlt =>
    have hmoved := h.moved hlt
    ⟨hmoved.begun, hmoved.known, hmoved.isEnd, hmoved.lt, hmoved.inRow, hmoved.upcoming⟩, h.spans⟩

/-- Items of which the same ranges and nodes are told are surveyed alike. -/
theorem State.Surveyed.alike {others : List Item} (h : origin.Surveyed g items s)
    (hspans : items.flatMap Item.spans = others.flatMap Item.spans)
    (htold : items.flatMap Item.told = others.flatMap Item.told) : origin.Surveyed g others s :=
  ⟨hspans ▸ h.upcoming, h.still, fun hlt =>
    have hmoved := h.moved hlt
    ⟨hmoved.begun, hmoved.known, hmoved.isEnd, hmoved.lt, hspans ▸ hmoved.inRow, hmoved.upcoming⟩,
    htold ▸ h.spans⟩

/-- A state that a parse comes from is surveyed: nothing was told of since. -/
theorem State.Stocked.surveyed (h : origin.Stocked g) : origin.Surveyed g [] origin where
  upcoming := List.forall_mem_cons.mpr ⟨Nat.le_refl _, (List.pairwise_cons.mp h.sorted).1⟩
  still _ := rfl
  moved hlt := absurd hlt (Nat.lt_irrefl _)
  spans := List.forall_mem_nil _

/-- The token that a parse took first since some state is that which it stood at. -/
theorem State.Surveyed.begun (h : origin.Surveyed g items s) (hle : origin.taken ≤ s.taken)
    (hend : s.token.isEnd = false) : origin.token.isEnd = false := by
  rcases Nat.eq_or_lt_of_le hle with heq | hlt
  · exact h.still heq ▸ hend
  · exact (h.moved hlt).begun

/-- A token that is taken is surveyed behind the others. -/
theorem State.Surveyed.advance (h : origin.Surveyed g items s) (hle : origin.taken ≤ s.taken)
    (hknown : g.token s.token) (hlt : s.token.start.offset < s.token.stop.offset) (hapart : s.Apart)
    (hend : s.token.isEnd = false) (hrun : advance context s = (.ok (), t)) :
    origin.Surveyed g items t := by
  have hhere := h.upcoming s.token List.mem_cons_self
  have hbegun := h.begun hle hend
  have hstop := hapart.stop_le hend hrun
  have hupcoming := fun token (hmem : token ∈ t.upcoming) =>
    h.upcoming token (mem_upcoming_advance hrun hmem)
  obtain ⟨delivery, feed, -, rfl⟩ := advance_eq_ok.mp hrun
  refine ⟨hupcoming, fun heq => ?_, fun _ => ⟨hbegun, hknown, hend, ?_, hhere.stretch (Nat.le_of_lt hlt),
    hstop⟩, h.spans⟩
  · rw [show (shift s delivery feed).taken = s.taken + 1 from rfl] at heq
    omega
  · exact Nat.lt_of_le_of_lt hhere.le hlt

/-- A node that is complete spans the tokens that were taken since it began. -/
theorem State.Surveyed.complete {node : Node} (h : origin.Surveyed g items s)
    (h' : s.Surveyed g node.items t) (hle : origin.taken ≤ s.taken) (hlt : s.taken < t.taken)
    (hknown : g.token s.token) (hrecord : context.options.recordRanges = true)
    (hplacement : node.placement = s.ending context t) :
    origin.Surveyed g (items ++ [.node node]) t := by
  obtain ⟨hbegun, hprevious, hend, hbetween, hinner, hlater⟩ := h'.moved hlt
  have hrange : node.placement.range = some ⟨s.token.start.offset, t.previous.stop.offset⟩ := by
    rw [hplacement, State.range_ending hrecord (Nat.le_of_lt hbetween)]
  have hnode : node.Spans g.token := ⟨_, _, hknown, hbegun, hprevious, hend, hrange, hbetween, hinner⟩
  have hhere := h.upcoming s.token List.mem_cons_self
  have hrow {stop : Nat} (hstop : t.previous.stop.offset ≤ stop) :
      InRow origin.token.start.offset ((items ++ [Item.node node]).flatMap Item.spans) stop := by
    rw [List.flatMap_append]
    exact hhere.append ⟨_, hrange, Nat.le_refl _, hbetween, hstop⟩
  refine ⟨fun token hmem => hrow (hlater token hmem), fun heq => ?_, fun _ => ⟨h.begun hle hbegun,
    hprevious, hend, Nat.lt_of_le_of_lt hhere.le hbetween, hrow (Nat.le_refl _), hlater⟩, ?_⟩
  · omega
  · rw [List.flatMap_append, List.flatMap_singleton, Item.told_node]
    exact List.forall_mem_append.mpr ⟨h.spans, List.forall_mem_append.mpr
      ⟨h'.spans, List.forall_mem_singleton.mpr (Node.spans_asRead.mpr hnode)⟩⟩

/-- All that a parse tells of is where it should be. -/
theorem Told.surveyed (h : Told context origin items s) (hrecord : context.options.recordRanges = true)
    (hlong : ∀ token, g.token token → token.isEnd = false → token.start.offset < token.stop.offset)
    (hstocked : origin.Stocked g) (hapart : origin.Apart) : origin.Surveyed g items s := by
  induction h with
  | nothing => exact hstocked.surveyed
  | token h hend hrun ih =>
    have hknown := (h.keeps hstocked).tokens _ List.mem_cons_self
    exact (ih hstocked hapart).advance h.taken_le hknown (hlong _ hknown hend) (h.keeps hapart) hend hrun
  | jumps _ jumps ih => exact (ih hstocked hapart).put _ _ jumps
  | unresolved _ _ ih => exact (ih hstocked hapart).put _ _ _
  | declared _ _ _ ih => exact (ih hstocked hapart).put _ _ _
  | opened _ hrun ih =>
    obtain ⟨_, _, rfl⟩ := openScope_put hrun
    refine ((ih hstocked hapart).put _ _ _).alike ?_ ?_ <;> rw [List.flatMap_append] <;>
      exact (List.append_nil _).symm
  | closed _ hrun ih =>
    obtain ⟨_, _, rfl⟩ := closeScope_put hrun
    refine ((ih hstocked hapart).put _ _ _).alike ?_ ?_ <;>
      simp [List.flatMap_append, Item.spans, Item.told]
  | renamed _ halike ih =>
    exact (ih hstocked hapart).alike (halike.flatMap Item.spans_asRead) (halike.flatMap Item.told_asRead)
  | node h h' htaken hplacement _ ih ih' =>
    have hstocked' := h.keeps hstocked
    exact ((ih hstocked hapart).complete (ih' hstocked' (h.keeps hapart)) h.taken_le htaken
      (hstocked'.tokens _ List.mem_cons_self) hrecord hplacement).put _ _ _

/-! ## Whole parses -/

/-- The nodes of an accepted feed stand where they should. -/
theorem spans_of_run (options : ParseOptions) (source : Text) {feed : Feed} {value : Chunk}
    (hrecord : options.recordRanges = true)
    (hlong : ∀ token, g.token token → token.isEnd = false → token.start.offset < token.stop.offset)
    (hgrounded : feed.Grounded g)
    (hapart : feed.stock.Pairwise fun a b => a.token.stop.offset ≤ b.token.start.offset)
    (hending : ∀ last, feed.ending = .ok last → last.token.isEnd = true)
    (h : (run options source feed).result = .ok value) :
    value.Spans g.token ∧ ∀ child ∈ (Node.chunk value).children, ∀ node ∈ child.postorder,
      node.Spans g.token := by
  rw [run_eq_levels, Outcome.of] at h
  rcases chunk_run nestingLimit (.ofFeed options source feed) (.initial options feed) with
    ⟨error, t, hrun, -⟩ | ⟨t, u, hfirst, hsecond, hrun⟩
  · rw [hrun] at h
    cases h
  · obtain ⟨opened, hopen, hbody⟩ := chunkBody_run nestingLimit (.ofFeed options source feed) u
    have hu : u.Stocked g ∧ u.Apart := by
      have hinitial : (State.initial options feed).Apart := by
        refine ⟨.cons (fun _ _ heq => Bool.noConfusion heq) (.cons (fun _ _ heq => Bool.noConfusion heq) ?_),
          hending⟩
        refine List.pairwise_map.mpr (hapart.imp ?_)
        exact fun hle _ => hle
      refine ⟨?_, Closed.advance (Closed.advance hinitial hfirst) hsecond⟩
      obtain ⟨_, _, hnext, rfl⟩ := advance_eq_ok.mp hfirst
      obtain ⟨_, _, hnext', rfl⟩ := advance_eq_ok.mp hsecond
      exact (grounded_opened options hgrounded hnext hnext').stocked
    obtain ⟨_, _, rfl⟩ := openScope_put hopen
    rw [hrun] at h
    generalize chunkBody (levels nestingLimit) (.ofFeed options source feed) u = outcome at hbody h
    cases hbody with
    | inside => cases h
    | behind => cases h
    | @whole chunk body t' u' v scope htold hclose hend hchunk hplacement =>
      obtain rfl := Except.ok.inj h
      obtain ⟨_, _, rfl⟩ := closeScope_put hclose
      have hsurveyed := htold.surveyed hrecord hlong (Closed.put hu.1 _ _ _) (Closed.put hu.2 _ _ _)
      have hbody : chunk.body.items.flatMap Item.spans = (body.map Statement.item).flatMap Item.spans := by
        rw [hchunk, Block.items, List.flatMap_append]
        exact List.append_nil _
      refine ⟨?_, fun child hchild node hnode => ?_⟩
      · have hfirst : g.token u.token := hu.1.tokens _ List.mem_cons_self
        have hlast : g.token t'.token := (htold.keeps (Closed.put hu.1 _ _ _)).tokens _ List.mem_cons_self
        rw [Chunk.Spans, hbody, hplacement]
        cases body with
        | nil =>
          have hbetween : u.token.start.offset ≤ t'.token.stop.offset :=
            Nat.le_trans (hsurveyed.upcoming _ List.mem_cons_self).le (g.ordered hlast)
          refine ⟨_, _, hfirst, hlast, .inr ⟨?_, hend⟩, State.range_ending hrecord hbetween, hbetween,
            hbetween⟩
          rw [hchunk]
          rfl
        | cons statement rest =>
          have hmoved := hsurveyed.moved (@Told.taken_lt _ _ _ _ htold (.statement statement) List.mem_cons_self)
          have hbetween : u.token.start.offset ≤ t'.previous.stop.offset := Nat.le_of_lt hmoved.lt
          exact ⟨_, _, hfirst, hmoved.known, .inl ⟨hmoved.begun, hmoved.isEnd⟩,
            State.range_ending hrecord hbetween, hbetween, hmoved.inRow⟩
      · have hmem := Node.mem_children.mp hchild
        rw [Node.items, hchunk, Block.items] at hmem
        have hitem := (List.mem_append.mp hmem).resolve_right (by simp)
        refine Node.spans_asRead.mp (hsurveyed.spans _ (List.mem_flatMap.mpr ⟨_, hitem, ?_⟩))
        exact List.mem_map_of_mem hnode

end Grammar

/-! ## Whole sources -/

/-- The tokens of a source, the end among them. -/
def Lexer.tokens (options : ParseOptions) (source : Text) : List Token :=
  (Lexer.feed options source).stock.map Delivery.token

/-- What is asked of a tree whose names, literals and comments stand in the source as they are written. -/
def Demands.verbatim (options : ParseOptions) (source : Text) : Demands where
  feature _ := True
  identifier identifier := ∃ token ∈ Lexer.tokens options source,
    token.lexeme = identifier.name ∧ identifier.placement = .between options source token.start token.stop
  literal literal := ∃ token ∈ Lexer.tokens options source,
    token.lexeme = literal.raw ∧ literal.placement = .between options source token.start token.stop
  comment comment := comment.Verbatim options source
  placement _ := True

section

variable {options : ParseOptions} {source : Text}

/-- Every token of a source stands verbatim in it. -/
theorem Lexer.verbatim_of_mem {token : Token} (h : token ∈ Lexer.tokens options source) :
    token.Verbatim source := by
  obtain ⟨delivery, hmem, rfl⟩ := List.mem_map.mp h
  exact ((Lexer.feed_verbatim options source).1 delivery hmem).1

/-- The tokens of a source, and trees with names and literals that are tokens of it. -/
def Ground.ofTokens (options : ParseOptions) (source : Text) : Ground where
  options
  source
  token token := token ∈ Lexer.tokens options source
  error _ := True
  demands := .verbatim options source
  ordered h := (Lexer.verbatim_of_mem h).le
  blamed _ _ _ := trivial
  feature _ := trivial
  word _ _ _ := trivial
  identifier h hname := ⟨_, h, (Lexer.verbatim_of_mem h).name _ hname, rfl⟩
  renamed _ h := h
  literal h _ := ⟨_, h, rfl, rfl⟩
  placement _ _ _ := trivial

/-- All that a source is read into is made of its tokens. -/
theorem Lexer.feed_ofTokens (options : ParseOptions) (source : Text) :
    (Lexer.feed options source).Grounded (.ofTokens options source) where
  tokens _ hmem := List.mem_map_of_mem hmem
  sorted := (Lexer.feed_grounded options source).sorted
  comments delivery hmem := ((Lexer.feed_verbatim options source).1 delivery hmem).2
  ending _ _ := trivial

/-- A source of which a chunk is read has tokens up to its end. -/
theorem tokenize_of_parse {chunk : Chunk} (h : parse options source = .ok chunk) :
    tokenize options source = .ok (Lexer.tokens options source) := by
  match htokens : tokenize options source with
  | .error error =>
    obtain ⟨error', herror⟩ := parse_of_tokenize htokens
    rw [h] at herror
    cases herror
  | .ok tokens =>
    obtain ⟨last, hlast⟩ := tokenize_eq_ok htokens
    rw [tokenize, Feed.tokens, hlast] at htokens
    obtain rfl := Except.ok.inj htokens
    rw [Lexer.tokens, Feed.stock, hlast, List.map_append]
    rfl

/-- What a source ends with is the end of the input. -/
theorem Lexer.isEnd_ending (options : ParseOptions) (source : Text) (last : Delivery)
    (h : (Lexer.feed options source).ending = .ok last) : last.token.isEnd = true := by
  obtain ⟨text, hsited, -⟩ := Lexer.sited_start options source
  obtain ⟨stop, -, ⟨error, after, -, heq⟩ | ⟨token, after, -, hend, heq⟩⟩ := hsited.reads_reading
  · rw [Lexer.feed_eq_reading, heq] at h
    cases h
  · rw [Lexer.feed_eq_reading, heq] at h
    exact Except.ok.inj h ▸ hend

/-- What is known of a node and the ranges of what it is made of is known of its children. -/
theorem InRow.children {node : Node} {start stop : Nat}
    (h : InRow start (node.items.flatMap Item.spans) stop) :
    (∀ child ∈ node.children, ∃ span, child.placement.range = some span ∧
      start ≤ span.start ∧ span.start < span.stop ∧ span.stop ≤ stop) ∧
    node.children.Pairwise fun child later => ∀ span ∈ child.placement.range,
      ∀ span' ∈ later.placement.range, span.stop ≤ span'.start := by
  rw [Node.spans_items] at h
  exact ⟨fun child hmem => h.forall_mem _ (List.mem_map_of_mem hmem), List.pairwise_map.mp h.pairwise⟩

/-- Of an accepted source every node has a range from the beginning of a token to the end of a token, none
of them the end of the input except that a chunk without statements ends there. The range of a node holds
those of its children, which stand in it one behind the other. Names and literals are single tokens, and
they as well as the comments are written in their ranges as they say. -/
theorem ranges_nest {chunk : Chunk} (hrecord : options.recordRanges = true)
    (h : parse options source = .ok chunk) :
    ∃ tokens, tokenize options source = .ok tokens ∧
      (∀ node ∈ (Node.chunk chunk).postorder, ∃ first ∈ tokens, ∃ last ∈ tokens,
        node.placement.range = some ⟨first.start.offset, last.stop.offset⟩ ∧
        first.start.offset ≤ last.stop.offset ∧ last.stop.offset ≤ Text.size source ∧
        (first.isEnd = false ∧ last.isEnd = false ∨
          node = .chunk chunk ∧ chunk.body.statements = [] ∧ last.isEnd = true) ∧
        (∀ child ∈ node.children, ∃ span, child.placement.range = some span ∧
          first.start.offset ≤ span.start ∧ span.start < span.stop ∧ span.stop ≤ last.stop.offset) ∧
        node.children.Pairwise fun child later => ∀ span ∈ child.placement.range,
          ∀ span' ∈ later.placement.range, span.stop ≤ span'.start) ∧
      (∀ identifier, .identifier identifier ∈ (Node.chunk chunk).postorder → ∃ token ∈ tokens,
        identifier.placement.range = some token.span ∧
          source.Shows token.span identifier.name.toList) ∧
      (∀ literal, .literal literal ∈ (Node.chunk chunk).postorder → ∃ token ∈ tokens,
        literal.placement.range = some token.span ∧ source.Shows token.span literal.raw.toList) ∧
      ∀ comments ∈ chunk.comments, ∀ comment ∈ comments, ∃ span,
        comment.placement.range = some span ∧ source.Shows span comment.raw.toList := by
  have hgrounded := Lexer.feed_ofTokens options source
  obtain ⟨hchunk, hinside⟩ := Grammar.spans_of_run options source hrecord
    (fun _ hmem => (Lexer.verbatim_of_mem hmem).lt) hgrounded (Lexer.feed_verbatim options source).2
    (Lexer.isEnd_ending options source) h
  have hmeets := (Grammar.run_grounded _ hgrounded).1 chunk h
  have hnodes := @Node.Meets.postorder _ (.chunk chunk) hmeets
  have hrange (start stop : Place) : (Placement.between options source start stop).range =
      some ⟨start.offset, stop.offset⟩ := if_pos hrecord
  refine ⟨_, tokenize_of_parse h, fun node hnode => ?_, fun identifier hmem => ?_,
    fun literal hmem => ?_, fun comments heq comment hmem => ?_⟩
  · rcases Node.mem_postorder.mp hnode with ⟨child, hchild, hnode⟩ | rfl
    · obtain ⟨first, last, hfirst, hbegun, hlast, hend, hspan, hlt, hrow⟩ := hinside child hchild node hnode
      exact ⟨first, hfirst, last, hlast, hspan, Nat.le_of_lt hlt, (Lexer.verbatim_of_mem hlast).shows.stop_le,
        .inl ⟨hbegun, hend⟩, hrow.children⟩
    · obtain ⟨first, last, hfirst, hlast, hends, hspan, hle, hrow⟩ := hchunk
      exact ⟨first, hfirst, last, hlast, hspan, hle, (Lexer.verbatim_of_mem hlast).shows.stop_le,
        hends.imp_right fun hempty => ⟨rfl, hempty⟩, @InRow.children (.chunk chunk) _ _ hrow⟩
  · obtain ⟨token, htoken, hname, hplacement⟩ := hnodes _ hmem
    refine ⟨token, htoken, ?_, hname ▸ (Lexer.verbatim_of_mem htoken).shows⟩
    rw [hplacement, hrange, Token.span]
  · obtain ⟨token, htoken, hraw, hplacement⟩ := hnodes _ hmem
    refine ⟨token, htoken, ?_, hraw ▸ (Lexer.verbatim_of_mem htoken).shows⟩
    rw [hplacement, hrange, Token.span]
  · obtain ⟨start, stop, hplacement, hshows⟩ := hmeets.2.1 comments heq comment hmem
    exact ⟨_, by rw [hplacement, hrange], hshows⟩

/-- Parentheses around an operand that is a call, a member of it, and a comment behind. -/
theorem ranges_nest_parenthesised :
    ∃ chunk tokens, parse { recordRanges := true, collectComments := true }
        "#!lua\nlocal x = -(f(y)).z --c".toList = .ok chunk ∧
      tokenize { recordRanges := true, collectComments := true }
        "#!lua\nlocal x = -(f(y)).z --c".toList = .ok tokens ∧
      chunk.placement.range = some ⟨6, 25⟩ ∧
      (∀ child ∈ (Node.chunk chunk).children, ∃ span, child.placement.range = some span ∧
        6 ≤ span.start ∧ span.start < span.stop ∧ span.stop ≤ 25) ∧
      ∀ identifier, .identifier identifier ∈ (Node.chunk chunk).postorder → ∃ token ∈ tokens,
        identifier.placement.range = some token.span ∧
          Text.Shows "#!lua\nlocal x = -(f(y)).z --c".toList token.span identifier.name.toList := by
  have hrange : (parse { recordRanges := true, collectComments := true }
      "#!lua\nlocal x = -(f(y)).z --c".toList).toOption.map (fun chunk => chunk.placement.range) =
        some (some ⟨6, 25⟩) := by
    decide +kernel
  cases hparse : parse { recordRanges := true, collectComments := true }
      "#!lua\nlocal x = -(f(y)).z --c".toList with
  | error error =>
    rw [hparse] at hrange
    cases hrange
  | ok chunk =>
    rw [hparse] at hrange
    have hrange : chunk.placement.range = some ⟨6, 25⟩ := Option.some.inj hrange
    obtain ⟨tokens, htokens, hnodes, hnames, -, -⟩ := ranges_nest rfl hparse
    obtain ⟨first, -, last, -, hspan, -, -, -, hchildren, -⟩ :=
      hnodes (.chunk chunk) (Node.mem_postorder.mpr (.inr rfl))
    obtain ⟨hstart, hstop⟩ := Span.mk.inj (Option.some.inj (hspan.symm.trans hrange))
    rw [hstart, hstop] at hchildren
    exact ⟨chunk, tokens, rfl, htokens, hrange, hchildren, hnames⟩

end

end LuaSyntax
