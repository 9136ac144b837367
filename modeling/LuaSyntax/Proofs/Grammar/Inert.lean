import LuaSyntax.Proofs.Grammar.Depth.Levels
import LuaSyntax.Proofs.Grammar.Layout
import LuaSyntax.Proofs.Grammar.Told.Ranges
import LuaSyntax.Proofs.Grammar.Extensions
import LuaSyntax.Proofs.Writing.Padded.Statement

/-!
# Empty statements do nothing

Where semicolons alone are statements, any number of them can be put in before a statement or at the end of a block,
unless a `return` is there, which must remain the last. The source is then accepted with the same tree, or it nests
too deep by the one level that an empty statement takes.

Where the statements of a source begin and its blocks end is read off its tree, in which they say so if ranges are
recorded. The tree is written in a row that has gaps at these places and perhaps at others (`Padded`); tokens differ
in where they begin, so a semicolon that is put in at such a place stands in a gap.
-/

namespace LuaSyntax

open Grammar Writing

/-! ## Statements say where they begin and end -/

namespace Grammar

open Rule

variable {dialect : Dialect} {nested : Nested}

/-- A statement stands from the token that it began with to the one that was taken last. -/
theorem placement_of_nestedStatement (htells : nested.Tells) {context : Context} {s s' : State} {v : Statement}
    (h : nestedStatement nested context s = (.ok (some v), s')) : v.placement = s.ending context s' := by
  obtain ⟨v', t, hstatement, hrest⟩ := bind_eq_ok.mp h
  have hruns : Tidings context s (OptionalEnds context s) (statement nested context s) :=
    statement_runs htells s ⟨[], .nothing s⟩ rfl
  have hended := hruns.value v' (congrArg Prod.fst hstatement)
  rw [show (statement nested context s).2 = t from congrArg Prod.snd hstatement] at hended
  cases v' with
  | none => cases hrest
  | some v' =>
    obtain ⟨hv, rfl⟩ := Prod.mk.inj hrest
    obtain rfl : v' = v := Option.some.inj (Except.ok.inj hv)
    exact hended.placement

/-- The levels of the grammar read statements that begin and end where they say. -/
theorem sound_ranged (depth : Nat) : (levels depth).Sound dialect (rangedOfDepth dialect depth) := by
  induction depth with
  | zero => exact sound_bottom
  | succ depth ih =>
    have hdeeper := sound_deeper ih
    refine ⟨hdeeper.advances, ?_, hdeeper.expression, fun statement p q hwritten => hdeeper.isLast statement p q hwritten.1⟩
    intro flow frame outer p total context s v s' hdialect hturns hs hrun
    obtain ⟨flow', q, hreaches, hs', behind, rfl, hwritten, hpasses⟩ :=
      hdeeper.statement flow frame outer p total context s v s' hdialect hturns hs hrun
    refine ⟨_, q, hreaches, hs', behind, rfl, ⟨hwritten, fun statement hv span hspan => ?_⟩, hpasses⟩
    obtain rfl : v = some statement := hv
    rw [placement_of_nestedStatement (tells_levels depth) hrun, State.ending, Placement.between] at hspan
    cases hrecord : context.options.recordRanges with
    | false =>
      rw [hrecord, if_neg Bool.false_ne_true] at hspan
      cases hspan
    | true =>
      rw [hrecord, if_pos rfl] at hspan
      obtain rfl := Option.some.inj hspan
      rw [hs.token, hs'.previous]
      exact ⟨rfl, rfl⟩

end Grammar

/-! ## Semicolons put in -/

/-- Whether semicolons may be put in before a token of a source, behind the token before it: a statement of the tree
begins there, or a block ends there and no `return` does. -/
def Chunk.Opens (chunk : Chunk) (previous token : Token) : Prop :=
  (∃ statement span, .statement statement ∈ (Node.chunk chunk).postorder ∧ statement.placement.range = some span ∧
    span.start = token.start.offset) ∨
  endsBlock token = true ∧ ∀ arguments placement,
    .statement (.returnStatement arguments placement) ∈ (Node.chunk chunk).postorder →
      ∀ span ∈ placement.range, span.stop ≠ previous.stop.offset

/-- Tokens with any number of semicolons put in, wherever this may be done. -/
inductive WithSemicolons (opens : Token → Token → Prop) : Token → List Token → List Token → Prop where
  | done {previous : Token} : WithSemicolons opens previous [] []
  | semicolon {previous token semicolon : Token} {tokens tokens' : List Token} : opens previous token →
      semicolon.value = (Symbol.semicolon : Terminal).value → WithSemicolons opens previous (token :: tokens) tokens' →
      WithSemicolons opens previous (token :: tokens) (semicolon :: tokens')
  | token {previous token token' : Token} {tokens tokens' : List Token} : token'.spelled = token.spelled →
      WithSemicolons opens token tokens tokens' →
      WithSemicolons opens previous (token :: tokens) (token' :: tokens')

namespace Slot

variable {opens : Token → Token → Prop} {previous token token' : Token} {tokens filling : List Token}
  {row before behind before' behind' : List Slot}

/-- Whether semicolons may be put in between two slots only if the first is a gap. -/
def Shuts (opens : Token → Token → Prop) (slot next : Slot) : Prop :=
  ∀ previous inner, slot = .token previous → next = .token inner → ¬ opens previous inner

/-- A row without tokens is filled with gaps only. -/
theorem filled_nil (h : Slot.tokens row = []) : Filled row [] := by
  induction row with
  | nil => exact .nil
  | cons slot row ih =>
    cases slot with
    | token inner => cases h
    | gap => exact .gap (ih h)

/-- The first token of a row has nothing but gaps before it, which can remain empty. -/
theorem exists_first (h : Slot.tokens row = token :: tokens) : ∃ before behind,
    row = before ++ .token token :: behind ∧ Slot.tokens behind = tokens ∧
      ∀ filling, Filled (.token token :: behind) filling → Filled row filling := by
  induction row with
  | nil => cases h
  | cons slot row ih =>
    cases slot with
    | token inner =>
      obtain ⟨rfl, hbehind⟩ := List.cons.inj h
      exact ⟨[], row, rfl, hbehind, fun _ => id⟩
    | gap =>
      obtain ⟨before, behind, rfl, hbehind, hfilled⟩ := ih h
      exact ⟨.gap :: before, behind, rfl, hbehind, fun filling h => .gap (hfilled filling h)⟩

/-- Semicolons that are put in where a row has gaps fill the row. -/
theorem filled_of_withSemicolons (h : WithSemicolons opens previous tokens filling) (hrow : Slot.tokens row = tokens)
    (hshuts : (.token previous :: row).IsChain (Shuts opens)) : Filled row filling := by
  induction h generalizing row with
  | done => exact filled_nil hrow
  | semicolon hopens hsemicolon _ ih =>
    cases row with
    | nil => cases hrow
    | cons slot row =>
      cases slot with
      | gap => exact .semicolon hsemicolon (ih hrow hshuts)
      | token inner =>
        obtain ⟨rfl, -⟩ := List.cons.inj hrow
        exact absurd hopens ((List.isChain_cons_cons.mp hshuts).1 _ _ rfl rfl)
  | token hspelled _ ih =>
    obtain ⟨before, behind, rfl, hbehind, hfilled⟩ := exists_first hrow
    rw [← List.cons_append] at hshuts
    exact hfilled _ (.token hspelled (ih hbehind hshuts.right_of_append))

/-- In a row in which every token begins behind the one before, a token is known by where it begins. -/
theorem before_eq (hrow : (Slot.tokens row).Pairwise fun a b => a.start.offset < b.start.offset)
    (h : row = before ++ .token token :: behind) (h' : row = before' ++ .token token' :: behind')
    (hstart : token.start.offset = token'.start.offset) : before = before' := by
  have hlater {before behind others : List Slot} {token token' : Token}
      (h : row = before ++ .token token :: (others ++ .token token' :: behind)) :
      token.start.offset < token'.start.offset := by
    rw [h, tokens_append, tokens_token, List.pairwise_append, List.pairwise_cons] at hrow
    exact hrow.2.1.1 token' (mem_tokens.mpr (List.mem_append_right _ List.mem_cons_self))
  rcases List.append_eq_append_iff.mp (h.symm.trans h') with ⟨others, rfl, hothers⟩ | ⟨others, rfl, hothers⟩
  · cases others with
    | nil => exact (List.append_nil _).symm
    | cons slot others =>
      obtain ⟨rfl, rfl⟩ := List.cons.inj hothers
      exact absurd (hlater h) (Nat.not_lt.mpr (Nat.le_of_eq hstart.symm))
  · cases others with
    | nil => exact List.append_nil _
    | cons slot others =>
      obtain ⟨rfl, rfl⟩ := List.cons.inj hothers
      exact absurd (hlater h') (Nat.not_lt.mpr (Nat.le_of_eq hstart))

end Slot

/-! ## The row of a source -/

variable {options : ParseOptions} {source : Text} {chunk : Chunk}

/-- The statements in a chunk. -/
def Chunk.Holds (chunk : Chunk) (statement : Statement) : Prop :=
  .statement statement ∈ (Node.chunk chunk).postorder

/-- The statements of a chunk are those within its body. -/
theorem Chunk.holds_iff {statement : Statement} :
    chunk.Holds statement ↔ Within (chunk.body.statements.map Statement.item) statement := by
  have hchunk : (Item.node (.chunk chunk)).Encloses statement ↔ chunk.Holds statement := by
    simp only [Item.Encloses, Item.node.injEq, exists_eq_left']
    rfl
  rw [← hchunk, encloses_node (.chunk chunk) fun _ heq => Node.noConfusion heq, ← within_block]
  rfl

/-- A row with gaps where a chunk opens, between a first token and a last, is shut everywhere else. -/
theorem Slot.shuts_of_opens {row : List Slot} {first last : Token}
    (hopens : ∀ statement, chunk.Holds statement → ∀ span ∈ statement.placement.range,
      ∃ token, [.gap, .token token] <:+: row ∧ token.start.offset = span.start)
    (hleads : (.token first :: (row ++ [.token last])).IsChain (Slot.Leads chunk.Holds))
    (hrow : (Slot.tokens (row ++ [.token last])).Pairwise fun a b => a.start.offset < b.start.offset)
    (hspans : ∀ statement, chunk.Holds statement → ∃ span ∈ statement.placement.range, span.start < span.stop) :
    (.token first :: (row ++ [.token last])).IsChain (Slot.Shuts chunk.Opens) := by
  refine List.isChain_iff_forall_rel_of_append_cons_cons.mpr ?_
  rintro _ _ before behind hsplit previous token rfl rfl (⟨statement, span, hmem, hspan, hstart⟩ | ⟨hends, hno⟩)
  · obtain ⟨token', ⟨before', behind', hgap⟩, hstart'⟩ := hopens statement hmem span hspan
    have hgap' : row ++ [.token last] = (before' ++ [.gap]) ++ .token token' :: (behind' ++ [.token last]) := by
      rw [← hgap]
      simp
    cases before with
    | nil =>
      have hfirst : row ++ [.token last] = [] ++ .token token :: behind := (List.cons.inj hsplit).2
      have hbefore := Slot.before_eq hrow hfirst hgap' (hstart.symm.trans hstart'.symm)
      exact absurd hbefore.symm (List.append_ne_nil_of_right_ne_nil _ (List.cons_ne_nil _ _))
    | cons slot before =>
      have hlater : row ++ [.token last] = (before ++ [.token previous]) ++ .token token :: behind := by
        rw [(List.cons.inj hsplit).2, List.append_assoc]
        rfl
      have hbefore := Slot.before_eq hrow hlater hgap' (hstart.symm.trans hstart'.symm)
      cases (List.append_inj' hbefore rfl).2
  · rw [List.isChain_iff_forall_rel_of_append_cons_cons] at hleads
    obtain hgap | ⟨last, hlast, arguments, placement, hinside, hstop⟩ := hleads hsplit token rfl hends
    · cases hgap
    · obtain rfl := Slot.token.inj hlast
      obtain ⟨span, hspan, hlt⟩ := hspans _ hinside
      have hstop := hstop span hspan
      have := hno arguments placement hinside span hspan
      omega

/-- An accepted source is a row with gaps in which its tree is written, one level deeper, however the gaps are
filled. -/
theorem Grammar.row_of_run {deliveries : List Delivery} {last : Delivery}
    (hempty : options.has .emptyStatement = true) (hlast : last.token.isEnd = true)
    (hends : ∀ token ∈ deliveries.map Delivery.token, token.isEnd = false)
    (hplain : ∀ statement, chunk.Holds statement → statement.isStructure = false)
    (h : (run options source ⟨deliveries, .ok last⟩).result = .ok chunk) :
    ∃ row q, Slot.tokens row = deliveries.map Delivery.token ∧ q.token = last.token ∧
      (∃ before slot, row = before ++ [slot] ∧ ∀ next, Slot.Leads chunk.Holds slot next) ∧
      Pads .closed chunk.Holds row (.before (deliveries.map Delivery.token) last.token hlast) q
        (Statements options.dialect (.ofDepth options.dialect (nestingLimit + 1)) chunk.body.statements) := by
  obtain ⟨⟨q, ⟨hstatements, hend⟩, -⟩, -⟩ := run_reads_so hlast (sound_ranged nestingLimit) h
  have hpadded := (hstatements.padded_block hempty (.ofDepth hempty nestingLimit)).mono
    (fun _ => Chunk.holds_iff) fun _ _ _ _ => id
  obtain ⟨row, -, hclosed, hpads⟩ := hpadded hplain
  have hrest : deliveries.map Delivery.token = Slot.tokens row ++ q.rest := hpads.spans.rest_eq hpads.proper
  have hnil : q.rest = [] := by
    cases hq : q.rest with
    | nil => rfl
    | cons token rest =>
      have htoken : q.token = token := by rw [Point.token, hq, List.headD_cons]
      have hno := hends token (hrest ▸ List.mem_append_right _ (hq ▸ List.mem_cons_self))
      rw [htoken, hno] at hend
      cases hend
  rw [hnil, List.append_nil] at hrest
  refine ⟨row, q, hrest.symm, ?_, hclosed rfl, hpads⟩
  rw [Point.token, hnil]
  exact hpads.spans.last_eq

/-! ## Whole sources -/

/-- A source of which the feed comes to its end is cut into its tokens. -/
theorem tokenize_of_ending {last : Delivery} (hlast : (Lexer.feed options source).ending = .ok last) :
    tokenize options source = .ok ((Lexer.feed options source).deliveries.map Delivery.token ++ [last.token]) := by
  rw [tokenize, Feed.tokens, hlast]
  rfl

/-- The tokens of a source that is read to its end begin one behind the other. -/
theorem Lexer.starts_increase {last : Delivery} (hlast : (Lexer.feed options source).ending = .ok last) :
    ((Lexer.feed options source).deliveries.map Delivery.token ++ [last.token]).Pairwise
      fun a b => a.start.offset < b.start.offset := by
  have hstock : (Lexer.feed options source).stock = (Lexer.feed options source).deliveries ++ [last] := by
    rw [Feed.stock, hlast]
    rfl
  have hapart := (Lexer.feed_verbatim options source).2
  rw [hstock, List.pairwise_append] at hapart
  obtain ⟨hdeliveries, -, hbefore⟩ := hapart
  have hlt (delivery : Delivery) (hmem : delivery ∈ (Lexer.feed options source).deliveries) :
      delivery.token.start.offset < delivery.token.stop.offset := by
    have hknown : delivery.token ∈ Lexer.tokens options source :=
      List.mem_map_of_mem (hstock ▸ List.mem_append_left _ hmem)
    exact (Lexer.verbatim_of_mem hknown).lt (isEnd_of_feed options source delivery hmem)
  refine List.pairwise_append.mpr ⟨List.pairwise_map.mpr ?_, List.pairwise_singleton _ _, ?_⟩
  · exact hdeliveries.imp_of_mem fun hmem _ hle => Nat.lt_of_lt_of_le (hlt _ hmem) hle
  · rintro _ htoken _ hlast
    obtain ⟨delivery, hmem, rfl⟩ := List.mem_map.mp htoken
    obtain rfl := List.mem_singleton.mp hlast
    exact Nat.lt_of_lt_of_le (hlt _ hmem) (hbefore _ hmem _ (List.mem_singleton.mpr rfl))

/-- A tree of a dialect that has empty statements declares no structures. -/
theorem isStructure_of_parse (hempty : options.has .emptyStatement = true) (h : parse options source = .ok chunk)
    (statement : Statement) (hmem : chunk.Holds statement) : statement.isStructure = false := by
  obtain ⟨-, -, -, -, hno⟩ := Dialect.has_of_emptyStatement hempty
  have hmeets := (show (Node.chunk chunk).Meets _ from features_of_parse h).postorder _ hmem
  cases statement with
  | structureDeclaration =>
    have hfeature : options.dialect.has .hstructure = true := hmeets.1
    cases hno.symm.trans hfeature
  | _ => rfl

/-- The statements of a tree with ranges all take a token. -/
theorem range_of_parse (hrecord : options.recordRanges = true) (h : parse options source = .ok chunk)
    (statement : Statement) (hmem : chunk.Holds statement) :
    ∃ span ∈ statement.placement.range, span.start < span.stop := by
  obtain ⟨-, hinside⟩ := Grammar.spans_of_run options source hrecord
    (fun _ hmem => (Lexer.verbatim_of_mem hmem).lt) (Lexer.feed_ofTokens options source)
    (Lexer.feed_verbatim options source).2 (Lexer.isEnd_ending options source) h
  obtain ⟨child, hchild, hnode⟩ | heq := Node.mem_postorder.mp hmem
  · obtain ⟨first, last, -, -, -, -, hspan, hlt, -⟩ := hinside child hchild _ hnode
    exact ⟨_, hspan, hlt⟩
  · cases heq

/-- A feed has the same tokens without their comments. -/
theorem Feed.tokens_bare (feed : Feed) : feed.bare.tokens = feed.tokens := by
  rw [Feed.tokens, Feed.tokens, Feed.bare]
  cases feed.ending <;> simp [Except.map, Delivery.bare]

/-- Chunks that are the same without their comments, and have the same comments, are the same. -/
theorem Chunk.akin_of_unplaced {chunk' : Chunk} (h : chunk'.unplaced = chunk.unplaced)
    (hcomments : Akin .placements chunk'.comments chunk.comments) : Akin .placements chunk' chunk := by
  obtain ⟨hbody, -, hglobals, hplacement⟩ := (Chunk.mk.injEq ..).mp h
  exact (Chunk.mk.injEq ..).mpr ⟨hbody, hcomments, hglobals, hplacement⟩

/-- A tree is read from its tokens with semicolons put in, unless it nests too deep then. -/
theorem Grammar.run_with_semicolons {options' : ParseOptions} {text : Text} {deliveries deliveries' : List Delivery}
    {last last' : Delivery} (hdialect : options'.dialect = options.dialect)
    (hchecks : options'.checkGotoLabels = options.checkGotoLabels) (hempty : options.has .emptyStatement = true)
    (hlast : last.token.isEnd = true) (hends : ∀ token ∈ deliveries.map Delivery.token, token.isEnd = false)
    (hplain : ∀ statement, chunk.Holds statement → statement.isStructure = false)
    (hspans : ∀ statement, chunk.Holds statement → ∃ span ∈ statement.placement.range, span.start < span.stop)
    (hstarts : (deliveries.map Delivery.token ++ [last.token]).Pairwise fun a b => a.start.offset < b.start.offset)
    (hrun : (run options source ⟨deliveries, .ok last⟩).result = .ok chunk)
    (h : WithSemicolons chunk.Opens (.endOfInput .start) (deliveries.map Delivery.token ++ [last.token])
      (deliveries'.map Delivery.token ++ [last'.token])) :
    (∃ chunk', (run options' text ⟨deliveries', .ok last'⟩).result = .ok chunk' ∧ Same chunk chunk') ∨
      ∃ error, (run options' text ⟨deliveries', .ok last'⟩).result = .error error ∧ error.message = .tooManyLevels := by
  obtain ⟨row, q, hrow, hq, ⟨before, slot, hclosed, hleads⟩, hpads⟩ := row_of_run hempty hlast hends hplain hrun
  have hwhole : Slot.tokens (row ++ [.token last.token]) = deliveries.map Delivery.token ++ [last.token] := by
    rw [Slot.tokens_append, hrow]
    rfl
  have hchain : (.token (.endOfInput .start) :: (row ++ [.token last.token])).IsChain (Slot.Leads chunk.Holds) := by
    rw [hclosed, List.append_assoc, List.singleton_append, List.isChain_cons_append_cons_cons, ← hclosed]
    exact ⟨hpads.leads _, hleads _, .singleton _⟩
  have hshuts := Slot.shuts_of_opens hpads.opens hchain (hwhole ▸ hstarts) hspans
  obtain ⟨filling, ending, heq, hfilled, hending⟩ := (Slot.filled_of_withSemicolons h hwhole hshuts).of_append
  obtain _ | ⟨hspelled, hnil⟩ := hending
  cases hnil
  obtain ⟨rfl, hend⟩ := List.append_inj' heq rfl
  obtain rfl := List.singleton_inj.mp hend
  have hlast' : last'.token.isEnd = true := (Token.isEnd_of_spelled hspelled).trans hlast
  obtain ⟨q', hspans', hnil, hend'⟩ := Point.spans_of_rest
    (show (Point.before (deliveries'.map Delivery.token) last'.token hlast').rest = _ ++ [] from
      (List.append_nil _).symm)
  have hq' : q'.token = last'.token := by rw [Point.token, hnil, List.headD_nil, hend']; rfl
  have hwritten : chunk.Written options'.dialect (nestingLimit + 1)
      (.before (deliveries'.map Delivery.token) last'.token hlast') q' := by
    refine ⟨hdialect ▸ hpads.written _ _ _ hfilled hspans' (.inl ?_), hq' ▸ hlast'⟩
    rw [hq, hq']
    exact congrArg Prod.fst hspelled
  have hwellFormed := (run_reads hlast hrun).2
  rw [← hdialect, ← hchecks] at hwellFormed
  obtain ⟨chunk', hgives, hsame⟩ : ∃ chunk', (Grammar.chunkOver (Grammar.levels (nestingLimit + 1))
      (.ofFeed options' text ⟨deliveries', .ok last'⟩) (.initial options' ⟨deliveries', .ok last'⟩)).1 = .ok chunk' ∧
        Same chunk chunk' := chunk_gives hlast' hwritten hwellFormed
  rw [result_run]
  rcases chunk_deeper options' text ⟨deliveries', .ok last'⟩ nestingLimit 1 with ⟨error, herror, hmessage⟩ | hdeeper
  · exact .inr ⟨error, herror, hmessage⟩
  · exact .inl ⟨chunk', hdeeper.symm.trans hgives, hsame⟩

/-- A source that is accepted is accepted with ranges too, with a tree that is the same up to them. -/
theorem parse_recorded {erasure : Erasure} (h : parse options source = .ok chunk)
    (halike : options.Alike erasure source { options with recordRanges := true })
    (hscope : ∀ frame frame' : List Binding, Akin erasure frame frame' →
      erasure.scope (some frame) = erasure.scope (some frame')) :
    ∃ recorded, parse { options with recordRanges := true } source = .ok recorded ∧ Akin erasure recorded chunk := by
  rcases parse_alike halike id hscope with
    ⟨chunk', recorded, hleft, hright, hakin⟩ | ⟨error, hleft, -⟩ | ⟨hno, hyes, -⟩
  · obtain rfl := Except.ok.inj (h.symm.trans hleft)
    exact ⟨recorded, hright, Eq.symm hakin⟩
  · cases h.symm.trans hleft
  · cases hno.symm.trans hyes

/-- Empty statements do nothing: in a dialect that has them, any number of semicolons can be put in before a statement
of an accepted source or where a block ends that does not end with a `return`. What has these tokens is accepted with
the same tree but for places, unless it nests too deep. The comments are the same too if those of the sources are. -/
theorem parse_with_semicolons (hempty : options.has .emptyStatement = true) (h : parse options source = .ok chunk) :
    ∃ tokens recorded, tokenize options source = .ok tokens ∧
      parse { options with recordRanges := true } source = .ok recorded ∧ Akin .placements recorded chunk ∧
      ∀ text tokens', tokenize options text = .ok tokens' →
        WithSemicolons recorded.Opens (.endOfInput .start) tokens tokens' →
        (∃ chunk', parse options text = .ok chunk' ∧ chunk'.unplaced = chunk.unplaced ∧
          (Akin .placements (Lexer.feed options text).comments (Lexer.feed options source).comments →
            Akin .placements chunk' chunk)) ∨
        ∃ error, parse options text = .error error ∧ error.message = .tooManyLevels := by
  have hplaces : options.Alike .placements source { options with recordRanges := true } :=
    ⟨rfl, rfl, rfl, rfl, fun _ _ => rfl⟩
  have hannotations : options.Alike .annotations source { options with recordRanges := true } :=
    ⟨rfl, rfl, rfl, rfl, fun _ _ => rfl⟩
  obtain ⟨recorded, hrecorded, hakin⟩ := parse_recorded h hplaces fun _ _ h => congrArg some h
  obtain ⟨recorded', hrecorded', hwritten⟩ := parse_recorded h hannotations fun _ _ _ => rfl
  obtain rfl := Except.ok.inj (hrecorded.symm.trans hrecorded')
  obtain ⟨last, hlast, hend⟩ := feed_of_parse hrecorded
  have htokens : tokenize options source = tokenize { options with recordRanges := true } source := by
    rw [tokenize, tokenize, ← Feed.tokens_bare, (Lexer.feed_kin hplaces.kin).1, Feed.tokens_bare]
  refine ⟨_, recorded, htokens.trans (tokenize_of_ending hlast), hrecorded, hakin, fun text tokens' htext hwith => ?_⟩
  obtain ⟨last', hlast'⟩ := tokenize_eq_ok htext
  obtain rfl := Except.ok.inj ((tokenize_of_ending hlast').symm.trans htext)
  have hfeed : Lexer.feed options text = ⟨(Lexer.feed options text).deliveries, .ok last'⟩ := by rw [← hlast']
  have hends : ∀ token ∈ (Lexer.feed { options with recordRanges := true } source).deliveries.map Delivery.token,
      token.isEnd = false := List.forall_mem_map.mpr (isEnd_of_feed _ source)
  have hparse (result : Except ParseError Chunk)
      (h : (run options text ⟨(Lexer.feed options text).deliveries, .ok last'⟩).result = result) :
      parse options text = result := by
    rw [← hfeed] at h
    exact h
  have hempty' : ParseOptions.has { options with recordRanges := true } .emptyStatement = true := hempty
  have hplain := isStructure_of_parse hempty' hrecorded
  have hspans := range_of_parse rfl hrecorded
  have hstarts := Lexer.starts_increase hlast
  have hrun := run_of_parse hrecorded hlast
  have hruns := @Grammar.run_with_semicolons { options with recordRanges := true } source recorded options text _ _ last
    last' rfl rfl hempty' hend hends hplain hspans hstarts hrun hwith
  rcases hruns with ⟨chunk', hrun', hsame⟩ | ⟨error, herror, hmessage⟩
  · have hparse' := hparse _ hrun'
    have hbody : chunk'.body.erase .annotations = chunk.body.erase .annotations := by
      refine Eq.trans ?_ (congrArg Chunk.body hwritten)
      injection hsame.symm
    have hunplaced := unplaced_eq_of_parse hparse' h hbody
    refine .inl ⟨chunk', hparse', hunplaced, fun hcomments => Chunk.akin_of_unplaced hunplaced ?_⟩
    rw [comments_of_run (isEnd_of_feed options text) hparse', comments_of_run (isEnd_of_feed options source) h]
    cases options.collectComments with
    | false => rfl
    | true => exact congrArg some hcomments
  · exact .inr ⟨error, hparse _ herror, hmessage⟩

/-- A result that is said to be good has a value. -/
theorem exists_ok_of_toBool {ε α : Type} {result : Except ε α} (h : result.toBool = true) : ∃ v, result = .ok v := by
  cases result with
  | ok v => exact ⟨v, rfl⟩
  | error => cases h

/-- A result that gives a value has that value. -/
theorem eq_ok_of_toOption {ε α : Type} {result : Except ε α} {v : α} (h : result.toOption = some v) :
    result = .ok v := by
  cases result with
  | ok w => exact congrArg Except.ok (Option.some.inj h)
  | error => cases h

/-- Whether a source is a block without statements that stands in a range. -/
def isEmptyBlock (span : Span) : Except ParseError Chunk → Bool
  | .ok ⟨.mk [.doStatement (.mk [] _) placement] _, _, _, _⟩ => placement.range == some span
  | _ => false

/-- A source that is one empty block holds one statement. -/
theorem holds_of_isEmptyBlock {span : Span} (h : isEmptyBlock span (.ok chunk) = true) : ∃ body placement,
    placement.range = some span ∧ ∀ statement, chunk.Holds statement ↔ statement = .doStatement body placement := by
  unfold isEmptyBlock at h
  split at h
  · next scope placement _ _ _ _ heq =>
    obtain rfl := Except.ok.inj heq
    refine ⟨.mk [] scope, placement, beq_iff_eq.mp h, fun statement => Chunk.holds_iff.trans ?_⟩
    simp [Statement.items, Block.statements]
  · cases h

/-- A block without statements, with a semicolon in it, one before it and one behind it. -/
theorem parse_with_semicolons_block : ∃ chunk chunk',
    parse { dialect := .lua52 } "do end".toList = .ok chunk ∧
      parse { dialect := .lua52 } ";do;end;".toList = .ok chunk' ∧ chunk'.unplaced = chunk.unplaced := by
  have hrange : isEmptyBlock ⟨0, 6⟩ (parse { dialect := .lua52, recordRanges := true } "do end".toList) = true := by
    decide +kernel
  have haccepted : (parse { dialect := .lua52 } "do end".toList).toBool = true := by decide +kernel
  have haccepted' : (parse { dialect := .lua52 } ";do;end;".toList).toBool = true := by decide +kernel
  have hread : (tokenize { dialect := .lua52 } "do end".toList).toOption = some
      [⟨.keyword .doWord, ⟨0, 1, 0⟩, ⟨2, 1, 0⟩, "do"⟩, ⟨.keyword .endWord, ⟨3, 1, 0⟩, ⟨6, 1, 0⟩, "end"⟩,
        .endOfInput ⟨6, 1, 0⟩] := by
    decide +kernel
  have hread' : (tokenize { dialect := .lua52 } ";do;end;".toList).toOption = some
      [⟨.punctuator .semicolon, ⟨0, 1, 0⟩, ⟨1, 1, 0⟩, ";"⟩, ⟨.keyword .doWord, ⟨1, 1, 0⟩, ⟨3, 1, 0⟩, "do"⟩,
        ⟨.punctuator .semicolon, ⟨3, 1, 0⟩, ⟨4, 1, 0⟩, ";"⟩, ⟨.keyword .endWord, ⟨4, 1, 0⟩, ⟨7, 1, 0⟩, "end"⟩,
        ⟨.punctuator .semicolon, ⟨7, 1, 0⟩, ⟨8, 1, 0⟩, ";"⟩, .endOfInput ⟨8, 1, 0⟩] := by
    decide +kernel
  obtain ⟨chunk, hparse⟩ := exists_ok_of_toBool haccepted
  obtain ⟨tokens, recorded, htokens, hrecorded, -, hwith⟩ := parse_with_semicolons rfl hparse
  obtain rfl := Except.ok.inj (htokens.symm.trans (eq_ok_of_toOption hread))
  rw [hrecorded] at hrange
  obtain ⟨body, placement, hrange, hholds⟩ := holds_of_isEmptyBlock hrange
  have hend {previous token : Token} (h : endsBlock token = true) : recorded.Opens previous token :=
    .inr ⟨h, fun _ _ hmem => Statement.noConfusion ((hholds _).mp hmem)⟩
  have hresult := hwith _ _ (eq_ok_of_toOption hread') (.semicolon (.inl ⟨_, _, (hholds _).mpr rfl, hrange, rfl⟩) rfl
    (.token rfl (.semicolon (hend rfl) rfl (.token rfl (.semicolon (hend rfl) rfl (.token rfl .done))))))
  rcases hresult with ⟨chunk', hparse', hunplaced, -⟩ | ⟨error, herror, -⟩
  · exact ⟨chunk, chunk', hparse, hparse', hunplaced⟩
  · rw [herror] at haccepted'
    cases haccepted'

/-- Where semicolons alone are no statements, none may stand before a statement. -/
theorem parse_with_semicolons_luaJit : ∃ chunk recorded tokens tokens' error,
    parse { dialect := .luaJit } "do end".toList = .ok chunk ∧
      parse { dialect := .luaJit, recordRanges := true } "do end".toList = .ok recorded ∧
      tokenize { dialect := .luaJit } "do end".toList = .ok tokens ∧
      tokenize { dialect := .luaJit } ";do end".toList = .ok tokens' ∧
      WithSemicolons recorded.Opens (.endOfInput .start) tokens tokens' ∧
      parse { dialect := .luaJit } ";do end".toList = .error error ∧ error.message ≠ .tooManyLevels := by
  have haccepted : (parse { dialect := .luaJit } "do end".toList).toBool = true := by decide +kernel
  have hrange : isEmptyBlock ⟨0, 6⟩ (parse { dialect := .luaJit, recordRanges := true } "do end".toList) = true := by
    decide +kernel
  have hread : (tokenize { dialect := .luaJit } "do end".toList).toOption = some
      [⟨.keyword .doWord, ⟨0, 1, 0⟩, ⟨2, 1, 0⟩, "do"⟩, ⟨.keyword .endWord, ⟨3, 1, 0⟩, ⟨6, 1, 0⟩, "end"⟩,
        .endOfInput ⟨6, 1, 0⟩] := by
    decide +kernel
  have hread' : (tokenize { dialect := .luaJit } ";do end".toList).toOption = some
      [⟨.punctuator .semicolon, ⟨0, 1, 0⟩, ⟨1, 1, 0⟩, ";"⟩, ⟨.keyword .doWord, ⟨1, 1, 0⟩, ⟨3, 1, 0⟩, "do"⟩,
        ⟨.keyword .endWord, ⟨4, 1, 0⟩, ⟨7, 1, 0⟩, "end"⟩, .endOfInput ⟨7, 1, 0⟩] := by
    decide +kernel
  have hrefused : ((parse { dialect := .luaJit } ";do end".toList).map fun _ => ()).mapError
      (fun error => decide (error.message = .tooManyLevels)) = .error false := by
    decide +kernel
  obtain ⟨chunk, hparse⟩ := exists_ok_of_toBool haccepted
  cases hrecorded : parse { dialect := .luaJit, recordRanges := true } "do end".toList with
  | error error =>
    rw [hrecorded] at hrange
    cases hrange
  | ok recorded =>
    rw [hrecorded] at hrange
    obtain ⟨body, placement, hrange, hholds⟩ := holds_of_isEmptyBlock hrange
    cases hparse' : parse { dialect := .luaJit } ";do end".toList with
    | ok =>
      rw [hparse'] at hrefused
      cases hrefused
    | error error =>
      rw [hparse'] at hrefused
      exact ⟨chunk, recorded, _, _, error, hparse, rfl, eq_ok_of_toOption hread, eq_ok_of_toOption hread',
        .semicolon (.inl ⟨_, _, (hholds _).mpr rfl, hrange, rfl⟩) rfl (.token rfl (.token rfl (.token rfl .done))), rfl,
        of_decide_eq_false (Except.error.inj hrefused)⟩

end LuaSyntax
