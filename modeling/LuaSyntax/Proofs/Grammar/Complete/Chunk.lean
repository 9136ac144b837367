import LuaSyntax.Proofs.Grammar.Depth.Levels
import LuaSyntax.Proofs.Grammar.Complete.Statement
import LuaSyntax.Proofs.Grammar.Sound.Chunk

/-!
# Chunks, given

Every level of the grammar gives what is written at that level. Tokens that write a well-formed tree are
therefore accepted, and what the parse gives is that tree, up to what the tokens do not say.
-/

namespace LuaSyntax

open Writing

namespace Grammar

open Rule

variable {dialect : Dialect} {flow : Flow} {p q : Point}

/-- Nothing is written at the bottom. -/
theorem complete_bottom : Nested.bottom.Complete dialect (.ofDepth dialect 0) where
  advances := advances_bottom
  absent h := h.elim
  isMethod h := h.elim
  statement h _ := h.elim
  expression {_ _ _ _ v} h := by
    cases v with
    | none => exact h.2.elim
    | some => exact h.1.elim

/-- Rules that read what is written on some level read what is written on the next. -/
theorem complete_deeper {nested : Nested} {inner : Writing} (h : nested.Complete dialect inner) :
    nested.deeper.Complete dialect (inner.deeper dialect) where
  advances := advances_deeper h.advances
  absent hstarts := hstarts
  isMethod hwritten := hwritten.isMethod_eq h.isMethod
  statement {_ _ _ _ _ _ v} hwritten hpasses := by
    refine (statement_gives h hwritten hpasses).bind fun v' hsame => ?_
    cases v' with
    | none => exact .give hsame
    | some v' => exact .quiet (quiet_complete _) fun _ _ => .give hsame
  expression := operation_gives h

/-- Whatever nests no deeper than there are levels is read as it is written. -/
theorem complete_levels (depth : Nat) : (levels depth).Complete dialect (.ofDepth dialect depth) := by
  induction depth with
  | zero => exact complete_bottom
  | succ depth ih => exact complete_deeper ih

/-- The end of the input stands behind the statements of a chunk. -/
theorem Rule.Gives.atEnd {β : Type} {r : Rule β} {c : Bool} {kind : β → Prop} (hend : p.token.isEnd = true)
    (h : r.Gives dialect flow (if c then { p with previous := p.token } else p) kind flow q) :
    (Rule.current >>= fun token =>
      if !token.isEnd then
        Rule.refuse >>= fun _ : Unit =>
          if c then Rule.modify (fun state => { state with previous := state.token }) >>= fun _ => r
          else r
      else
        if c then Rule.modify (fun state => { state with previous := state.token }) >>= fun _ => r
        else r).Gives dialect flow p kind flow q := by
  refine .current (.no (by rw [hend]; exact Bool.false_ne_true) ?_)
  cases c with
  | false => exact h
  | true =>
    intro total context s hdialect hturns hs
    have hsettled : State.At dialect total flow { p with previous := p.token }
        { s with previous := s.token } :=
      ⟨hs.token, hs.token, hs.lookahead, hs.deliveries, hs.ending, hs.taken, hs.jumps⟩
    exact h total context _ hdialect hturns hsettled

/-- The body of a chunk is read as it is written, up to the end of the input. -/
theorem chunkBody_gives {options : ParseOptions} {chunk : Chunk} {limit : Nat}
    (h : chunk.Written options.dialect limit p q)
    (hwellFormed : chunk.WellFormed options.dialect options.checkGotoLabels) :
    (chunkBody (levels limit)).Gives options.dialect (.ofOptions options) p (Same chunk) (.ofOptions options)
      (if chunk.body.statements.isEmpty then { q with previous := q.token } else q) := by
  obtain ⟨⟨statements, scope⟩, comments, globals, placement⟩ := chunk
  obtain ⟨hwritten, hend⟩ := h
  obtain ⟨hbody, hescaping⟩ := hwellFormed
  have hinside : (Block.mk statements scope).WellFormed ((Flow.within (.ofOptions options)
      [{ isLoop := false }]).situation options.dialect) false := hbody
  refine .quiet quiet_mark fun start _ => .quiet quiet_openScope fun _ _ => .openBlock
    ((statements_gives (complete_levels limit) hwritten (Flow.Passes.of_wellFormed hinside).1).bind
      fun statements' hsame => ?_)
  refine .closeLast (fun hlabels hchecks => pending_eq_nil (hescaping hlabels hchecks))
    (.quiet quiet_closeScope fun scope _ => .atEnd hend ?_)
  rw [hsame.isEmpty_eq]
  exact .quiet (quiet_placed start) fun _ _ => .quiet quiet_takeUnresolved fun _ _ =>
    .read fun _ _ _ => .context fun _ => .quiet (quiet_complete _) fun _ _ =>
      .give (same_chunk (same_block hsame))

/-- Tokens that write a well-formed tree are read as that tree with as many levels as it nests. -/
theorem chunk_gives {options : ParseOptions} {source : Text} {deliveries : List Delivery}
    {last : Delivery} (hlast : last.token.isEnd = true) {chunk : Chunk} {limit : Nat}
    (h : chunk.Written options.dialect limit
      (.before (deliveries.map Delivery.token) last.token hlast) q)
    (hwellFormed : chunk.WellFormed options.dialect options.checkGotoLabels) :
    ∃ chunk', (Grammar.chunkOver (Grammar.levels limit) (.ofFeed options source ⟨deliveries, .ok last⟩)
      (.initial options ⟨deliveries, .ok last⟩)).1 = .ok chunk' ∧ Same chunk chunk' := by
  obtain ⟨s, hstart, hs⟩ := State.At.start options (.ofFeed options source ⟨deliveries, .ok last⟩)
    deliveries hlast
  obtain ⟨chunk', t, hbody, -, hsame⟩ := chunkBody_gives h hwellFormed _
    (.ofFeed options source ⟨deliveries, .ok last⟩) s rfl (Nat.lt_succ_self _) hs
  refine ⟨chunk', ?_, hsame⟩
  rw [Grammar.chunkOver, ← bind_assoc, bind_of_ok hstart, hbody]

/-- Tokens that write a well-formed tree are accepted as that tree. -/
theorem run_gives {options : ParseOptions} {source : Text} {deliveries : List Delivery}
    {last : Delivery} (hlast : last.token.isEnd = true) {chunk : Chunk}
    (h : chunk.Written options.dialect nestingLimit
      (.before (deliveries.map Delivery.token) last.token hlast) q)
    (hwellFormed : chunk.WellFormed options.dialect options.checkGotoLabels) :
    ∃ chunk', (run options source ⟨deliveries, .ok last⟩).result = .ok chunk' ∧ Same chunk chunk' := by
  rw [result_run]
  exact chunk_gives hlast h hwellFormed

end Grammar

end LuaSyntax
