import LuaSyntax.Proofs.Grammar.Depth.Levels
import LuaSyntax.Proofs.Grammar.Lockstep.Statement
import LuaSyntax.Proofs.Grammar.Sound.Statement

/-!
# Chunks, read

Every level of the grammar reads what is written at that level. A source that is accepted is therefore
written as the tree says, from its first token to its last, and the tree is well-formed.
-/

namespace LuaSyntax

open Writing

/-- What the body of a chunk may do. -/
def Flow.ofOptions (options : ParseOptions) : Flow :=
  { checksTargets := options.checkGotoLabels
    allowsVararg := true
    frames := [] }

namespace Grammar

open Rule

variable {dialect : Dialect} {flow : Flow} {p q : Point}

/-- The bottom reads nothing, so it reads only what is written so. -/
theorem sound_bottom : Nested.bottom.Sound dialect (.ofDepth dialect 0) where
  advances := advances_bottom
  statement _ _ _ _ := .complain _
  expression _ _ _ := .complain _
  isLast _ _ _ h := h.elim

/-- Rules that read what is written on some level make rules that do so on the next. -/
theorem sound_deeper {nested : Nested} {inner : Writing} (h : nested.Sound dialect inner) :
    nested.deeper.Sound dialect (inner.deeper dialect) where
  advances := advances_deeper h.advances
  statement flow frame outer p := by
    refine (statement_moves h).andThen ?_
    rintro v _ q ⟨behind, rfl, hwritten, hpasses⟩
    cases v with
    | none => exact .give ⟨behind, rfl, hwritten, hpasses⟩
    | some v => exact .quiet (quiet_complete _) fun _ _ => .give ⟨behind, rfl, hwritten, hpasses⟩
  expression level flow p := operation_reads h level
  isLast _ _ _ := faces_of_isLast

/-- Every number of levels reads only what is written on as many. -/
theorem sound_levels (depth : Nat) : (levels depth).Sound dialect (.ofDepth dialect depth) := by
  induction depth with
  | zero => exact sound_bottom
  | succ depth ih => exact sound_deeper ih

/-- A parse begins before its first token. -/
theorem State.At.start (options : ParseOptions) (context : Context) (deliveries : List Delivery)
    {last : Delivery} (h : last.token.isEnd = true) :
    ∃ s, (Rule.advance >>= fun _ => Rule.advance) context (.initial options ⟨deliveries, .ok last⟩) =
        (.ok (), s) ∧
      s.At options.dialect (deliveries.length + 2) (.ofOptions options)
        (.before (deliveries.map Delivery.token) last.token h) := by
  have hjumps := Jumps.shows_new options.dialect options.checkGotoLabels true
  match deliveries with
  | [] => exact ⟨_, rfl, rfl, rfl, rfl, rfl, ⟨_, rfl, rfl⟩, rfl, hjumps⟩
  | [delivery] => exact ⟨_, rfl, rfl, rfl, rfl, rfl, ⟨_, rfl, rfl⟩, rfl, hjumps⟩
  | first :: second :: rest =>
    refine ⟨_, rfl, rfl, rfl, rfl, rfl, ⟨_, rfl, rfl⟩, ?_, hjumps⟩
    show 2 + (rest.map Delivery.token).length.succ.succ = rest.length.succ.succ + 2
    rw [List.length_map, Nat.add_comm]

/-- To take out the names without a declaration is quiet. -/
theorem quiet_takeUnresolved : takeUnresolved.Quiet fun _ => True :=
  fun _ s => ⟨_, s.scope.takeUnresolved.2, s.log, rfl, trivial⟩

/-- The end of the input stands behind the statements of a chunk. One without statements stands where
the end does. -/
theorem Rule.Moves.atEnd {β : Type} {r : Rule β} {c : Bool} {post : β → Flow → Point → Prop}
    (h : p.token.isEnd = true → ∀ q, q.rest = p.rest → q.token = p.token → r.Moves dialect flow q post) :
    (Rule.current >>= fun token =>
      if !token.isEnd then
        Rule.refuse >>= fun _ : Unit =>
          if c then Rule.modify (fun state => { state with previous := state.token }) >>= fun _ => r
          else r
      else
        if c then Rule.modify (fun state => { state with previous := state.token }) >>= fun _ => r
        else r).Moves dialect flow p post := by
  refine .current (.ite (fun _ => .of_fails (.bind fun context s => ?_)) fun hend => ?_)
  · obtain ⟨error, hrefuse⟩ := fails_refuse (α := Unit) context s
    exact ⟨error, s, hrefuse⟩
  rw [Bool.not_eq_false'] at hend
  refine .ite (fun _ => ?_) fun _ => h hend p rfl rfl
  intro total context s v s' hdialect hturns hs hrun
  have hsettled : State.At dialect total flow { p with previous := p.token }
      { s with previous := s.token } :=
    ⟨hs.token, hs.token, hs.lookahead, hs.deliveries, hs.ending, hs.taken, hs.jumps⟩
  exact h hend { p with previous := p.token } rfl rfl total context _ v s' hdialect hturns hsettled hrun

/-- The body of a chunk that was read is written up to the end of the input, and well-formed. -/
theorem chunkBody_moves {limit : Nat} {inner : Writing} (hsound : (levels limit).Sound dialect inner)
    (options : ParseOptions) :
    (chunkBody (levels limit)).Moves dialect (.ofOptions options) p fun chunk _ q =>
      (∃ r, (Statements dialect inner chunk.body.statements p r ∧ r.token.isEnd = true) ∧
        q.rest = r.rest ∧ q.token = r.token) ∧ chunk.WellFormed dialect options.checkGotoLabels := by
  have hmoves : (statements (levels limit)).Moves dialect
      (Flow.within (.ofOptions options) [{ isLoop := false }]) p _ :=
    statements_moves hsound
  refine .quiet quiet_mark fun start _ => .quiet quiet_openScope fun _ _ => .openBlock
    (hmoves.andThen ?_)
  rintro statements _ q ⟨behind, rfl, hpasses, hstatements⟩
  refine .closeLast fun hpending => .quiet quiet_closeScope fun scope _ => .atEnd fun hend r hrest htoken => ?_
  refine .quiet (quiet_placed start) fun placement _ => .quiet quiet_takeUnresolved fun globals _ =>
    .read fun total s hs => .context fun context => .quiet (quiet_complete _) fun _ _ =>
      .give ⟨⟨q, ⟨hstatements, hend⟩, hrest, htoken⟩, ?_, ?_⟩
  · exact wellFormed_block (isLast_of_mem_dropLast hsound.isLast hstatements) hpasses nofun
  · intro hlabels hchecks
    exact @escaping_eq_nil _ (.mk statements scope) _ hpasses.behind_eq (hpending hlabels hchecks)

/-- A source that is accepted is written as its tree says, up to the first token that is the end, in
every way in which the levels of the grammar read, and its tree is well-formed. -/
theorem run_reads_so {options : ParseOptions} {source : Text} {deliveries : List Delivery}
    {last : Delivery} (hlast : last.token.isEnd = true) {chunk : Chunk} {inner : Writing}
    (hsound : (levels nestingLimit).Sound options.dialect inner)
    (h : (run options source ⟨deliveries, .ok last⟩).result = .ok chunk) :
    (∃ q : Point, (Statements options.dialect inner chunk.body.statements
        (.before (deliveries.map Delivery.token) last.token hlast) q ∧ q.token.isEnd = true) ∧
      q.rest = (deliveries.map Delivery.token).dropWhile fun token => !token.isEnd) ∧
        chunk.WellFormed options.dialect options.checkGotoLabels := by
  obtain ⟨s, hstart, hs⟩ := State.At.start options (.ofFeed options source ⟨deliveries, .ok last⟩)
    deliveries hlast
  have hbody : chunkBody (levels nestingLimit) (.ofFeed options source ⟨deliveries, .ok last⟩) s =
      (.ok chunk, (chunkBody (levels nestingLimit) (.ofFeed options source ⟨deliveries, .ok last⟩) s).2) := by
    refine Prod.ext ?_ rfl
    rw [← h, result_run, Grammar.chunkOver, ← bind_assoc, bind_of_ok hstart]
  obtain ⟨_, q, hreaches, -, ⟨r, hwritten, hrest, htoken⟩, hwellFormed⟩ :=
    chunkBody_moves hsound options _ _ s chunk _ rfl (Nat.lt_succ_self _) hs hbody
  have hend : q.token.isEnd = true := htoken ▸ hwritten.2
  exact ⟨⟨r, hwritten, hrest.symm.trans (hreaches.rest_eq hend)⟩, hwellFormed⟩

/-- A source that is accepted is written as its tree says, up to the first token that is the end, and
its tree is well-formed. -/
theorem run_reads {options : ParseOptions} {source : Text} {deliveries : List Delivery}
    {last : Delivery} (hlast : last.token.isEnd = true) {chunk : Chunk}
    (h : (run options source ⟨deliveries, .ok last⟩).result = .ok chunk) :
    (∃ q : Point, chunk.Written options.dialect nestingLimit
        (.before (deliveries.map Delivery.token) last.token hlast) q ∧
      q.rest = (deliveries.map Delivery.token).dropWhile fun token => !token.isEnd) ∧
        chunk.WellFormed options.dialect options.checkGotoLabels :=
  run_reads_so hlast (sound_levels nestingLimit) h

/-- The tokens of a source that is accepted are those that write its tree: none is left out, none is
put in and none is moved, up to the first that ends the source. -/
theorem written_of_accepted {options : ParseOptions} {source : Text} {tokens : List Token}
    {last : Token} (hlast : last.isEnd = true) {chunk : Chunk}
    (h : (run options source (.ofTokens tokens last)).result = .ok chunk) :
    ∃ q : Point, chunk.Written options.dialect nestingLimit (.before tokens last hlast) q ∧
      q.rest = tokens.dropWhile fun token => !token.isEnd := by
  have htokens : (tokens.map fun token => ({ token } : Delivery)).map Delivery.token = tokens :=
    (List.map_map ..).trans (List.map_id tokens)
  have hdelivered : (Delivery.mk last []).token.isEnd = true := hlast
  have hreads := (run_reads hdelivered h).1
  rwa [htokens] at hreads

/-- Parentheses around a value and a semicolon behind it leave no node. -/
theorem written_of_accepted_parenthesised :
    ∃ chunk, (run {} [] (.ofTokens
        [⟨.identifier "x", .start, .start, "x"⟩, ⟨.punctuator .assign, .start, .start, "="⟩,
          ⟨.punctuator .leftParen, .start, .start, "("⟩, ⟨.nil, .start, .start, "nil"⟩,
          ⟨.punctuator .rightParen, .start, .start, ")"⟩,
          ⟨.punctuator .semicolon, .start, .start, ";"⟩]
        (.endOfInput .start))).result = .ok chunk ∧
      ∃ q : Point, chunk.Written .lua51 nestingLimit (.before
        [⟨.identifier "x", .start, .start, "x"⟩, ⟨.punctuator .assign, .start, .start, "="⟩,
          ⟨.punctuator .leftParen, .start, .start, "("⟩, ⟨.nil, .start, .start, "nil"⟩,
          ⟨.punctuator .rightParen, .start, .start, ")"⟩,
          ⟨.punctuator .semicolon, .start, .start, ";"⟩]
        (.endOfInput .start) rfl) q ∧ q.rest = [] := by
  have haccepted : (run {} [] (.ofTokens
      [⟨.identifier "x", .start, .start, "x"⟩, ⟨.punctuator .assign, .start, .start, "="⟩,
        ⟨.punctuator .leftParen, .start, .start, "("⟩, ⟨.nil, .start, .start, "nil"⟩,
        ⟨.punctuator .rightParen, .start, .start, ")"⟩,
        ⟨.punctuator .semicolon, .start, .start, ";"⟩]
      (.endOfInput .start))).result.toOption.isSome = true := by
    decide +kernel
  generalize hresult : (run {} [] _).result = result at haccepted
  cases result with
  | error error => cases haccepted
  | ok chunk => exact ⟨chunk, rfl, written_of_accepted rfl hresult⟩

end Grammar

end LuaSyntax
