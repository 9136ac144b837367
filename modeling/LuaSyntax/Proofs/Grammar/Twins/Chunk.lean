import LuaSyntax.Proofs.Grammar.Levels
import LuaSyntax.Proofs.Grammar.Twins.Statement

/-!
# Chunks in twins

All levels of the grammar come out alike in twins, by induction on the levels. A function that is a statement
is told of where the statement is complete. When the outermost block of a chunk closes, the chunk itself may
be to blame. Of twins that keep the same, and of which nothing is erased, both come to the same result; so it does
not matter how many levels there are as long as there are enough.
-/

namespace LuaSyntax.Grammar

open Rule

namespace Twins

variable {T : Twins} [T.Sound] {nested nested' : Nested}

/-- A statement of the next level finds what it holds. -/
theorem finds_nestedStatement (hn : T.Fit nested nested') : T.Finds (fun v => .of T.left v.toList) innocent
    (nestedStatement nested) (nestedStatement nested') := by
  refine fun since found => (finds_statement hn since found).behind (fun v w hvw => ?_) ?_
  · cases v with
    | none =>
      cases w with
      | none => exact .give rfl fun _ hs => hs
      | some w => exact absurd hvw not_akin_none_some
    | some v =>
      cases w with
      | none => exact absurd hvw not_akin_some_none
      | some w => exact (stable_complete _ _).before fun _ _ _ => .give hvw fun _ hs => hs
  · rintro _ error s u t ⟨_, rfl, function, rfl, hblames⟩ hrun
    cases hrun
    exact .inr ⟨function, .inr List.mem_cons_self, hblames⟩

/-- Levels that fit are followed by levels that fit. -/
theorem fit_deeper (hn : T.Fit nested nested') : T.Fit nested.deeper nested'.deeper :=
  ⟨finds_nestedStatement hn, stable_operation hn⟩

/-- What the levels of the grammar read, both parses read alike. -/
theorem fit_levels (level : Nat) : T.Fit (levels level) (levels level) := by
  induction level with
  | zero => exact ⟨fun _ _ => .complain _, fun _ => .complain _⟩
  | succ level ih => exact fit_deeper ih

/-- A second parse may go deeper if the first may fail where it does not. -/
theorem fit_further (hexcused : ∀ token,
    T.excused (errorAt T.left.source token .tooManyLevels [token.near])) (level more : Nat) :
    T.Fit (levels level) (levels (level + more)) := by
  induction level with
  | zero =>
    have hbottom {α : Type} [Erasable α] {pre : State → Prop} {post : α → State → Prop}
        {guilty : α → ParseError → Prop} (r : Rule α) :
        T.Runs pre post guilty (complain .tooManyLevels) r := by
      refine ⟨.of_log fun _ _ => rfl, fun s t _ _ => .apart ⟨?_, ?_⟩⟩
      · rintro _ _ ⟨⟩
        exact hexcused s.token
      · rintro _ _ ⟨⟩
    exact ⟨fun _ _ => hbottom _, fun _ _ _ => hbottom _⟩
  | succ level ih =>
    rw [Nat.succ_add]
    exact fit_deeper ih

/-! ## Chunks -/

/-- A record of jumps in the outermost block of a chunk, where nothing was read. -/
def Begun (origin : Jumps) : Prop := ∃ outer : Jumps, outer.pending = [] ∧ origin = outer.push false

omit [T.Sound] in
/-- At the beginning nothing was found, and no `goto` waits. -/
theorem runs_begin : T.Runs (fun s => s.jumps.pending = []) (fun _ => State.Found Begun .nothing) innocent
    (openBlock false) (openBlock false) := by
  refine ⟨.of_log fun _ _ => rfl, fun s t hst hs => .both rfl (hst.setJumps hst.checks ?_) ?_⟩
  · rw [hst.jumps]
    rfl
  · exact ⟨_, ⟨s.jumps, hs, rfl⟩, .refl (Jumps.coherent_push_new hs false)⟩

/-- Where a chunk stands that is at the end of the input. An empty one stands there. -/
def chunkPlace (statements : List Statement) (start : Place) : Rule Placement :=
  if statements.isEmpty then
    modify (fun state => { state with previous := state.token }) >>= fun _ => placed start
  else placed start

/-- A chunk behind the statements of its outermost block: the block, and where the chunk stands. -/
def chunkRest (statements : List Statement) (start : Place) : Rule (Block × Placement) :=
  closeScope >>= fun scope => current >>= fun token =>
    if !token.isEnd then (refuse : Rule Unit) >>= fun _ => chunkPlace statements start >>= fun placement =>
      pure (.mk statements scope, placement)
    else chunkPlace statements start >>= fun placement => pure (.mk statements scope, placement)

/-- What is read of a chunk before the names and the comments are handed over that were kept. -/
def chunkHead (limit : Nat) : Rule (Block × Placement) :=
  advance >>= fun _ => advance >>= fun _ => mark >>= fun start => openScope >>= fun _ =>
    openBlock false >>= fun _ => statements (levels limit) >>= fun body => closeBlock >>= fun _ =>
      chunkRest body start

/-- The chunk of what was read, with what was kept. -/
def chunkOf (context : Context) (state : State) (read : Block × Placement) : Chunk where
  body := read.1
  comments := if context.options.collectComments then some state.comments else none
  globals := state.scope.takeUnresolved.1
  placement := read.2

/-- Hands over what was kept, which never fails, and tells an observer of the chunk. -/
def chunkFoot (read : Block × Placement) : Rule Chunk := fun context s =>
  (.ok (chunkOf context s read),
    { s with
      scope := s.scope.takeUnresolved.2
      log := .completed (.chunk (chunkOf context s read)) :: s.log })

omit [T.Sound] in
/-- A chunk is its statements and what comes behind them. -/
theorem chunk_eq (limit : Nat) : chunkOver (levels limit) = chunkHead limit >>= chunkFoot := by
  have hite {α β : Type} (c : Bool) (r q : Rule α) (f : α → Rule β) :
      (if c = true then r else q) >>= f = if c = true then r >>= f else q >>= f := by cases c <;> rfl
  have hpure {α β : Type} (v : α) (f : α → Rule β) : pure v >>= f = f v := rfl
  simp only [chunkHead, chunkRest, chunkPlace, bind_assoc, hite, hpure]
  rfl

/-- A chunk is placed alike in both parses, an empty one at the end of the input. -/
theorem runs_chunkPlace {body body' : List Statement} (hbody : Akin T.erasure body body') (start : Place) :
    T.Runs (fun _ => True) (fun _ _ => True) innocent (chunkPlace body start) (chunkPlace body' start) := by
  have hplaced : T.Runs (fun _ => True) (fun _ _ => True) innocent (placed start) (placed start) :=
    (runs_placed start).mono (fun _ hs => hs) (fun _ _ _ => trivial) fun _ _ hv => hv
  have hmove : T.Runs (fun _ => True) (fun _ _ => True) innocent
      (modify fun state => { state with previous := state.token })
      (modify fun state => { state with previous := state.token }) :=
    ⟨.of_log fun _ _ => rfl, fun s t hst hs => .both rfl ⟨hst.feed, hst.coming, hst.token, hst.token,
      hst.lookahead, hst.comments, hst.scope, hst.checks, hst.jumps⟩ hs⟩
  rw [chunkPlace, chunkPlace, hbody.isEmpty_eq]
  exact .ite (hmove.bind fun _ _ _ => hplaced) hplaced

/-- What comes behind the statements of a chunk is akin in both parses. -/
theorem runs_chunkRest {body body' : List Statement} (hbody : Akin T.erasure body body') (start : Place) :
    T.Runs (fun _ => True) (fun _ _ => True) innocent (chunkRest body start) (chunkRest body' start) := by
  have hclose : T.Runs (fun _ => True) (fun _ _ => True) innocent closeScope closeScope :=
    runs_books _ _ books_closeScope books_closeScope (fun _ _ h => Scope.akin_pop h Sound.scope)
      (fun hforgets _ _ => hforgets.scope _ _) fun _ _ _ hs => hs
  refine hclose.bind fun scope scope' hscope => .glance fun token => ?_
  have hplace : T.Runs (fun _ => True) (fun _ _ => True) innocent
      (chunkPlace body start >>= fun placement => pure (Block.mk body scope, placement))
      (chunkPlace body' start >>= fun placement => pure (Block.mk body' scope', placement)) :=
    (runs_chunkPlace hbody start).bind fun _ _ hplacement =>
      .give (akin_mk.mpr ⟨akin_block hbody hscope, hplacement⟩) fun _ hs => hs
  have hrefuse : T.Runs (fun _ => True) (fun _ _ => True) innocent (refuse : Rule Unit) refuse := .refuse
  exact .ite (hrefuse.bind fun _ _ _ => hplace) hplace

/-- The body of a chunk is made of the statements that were read. -/
theorem chunkRest_body {statements : List Statement} {start : Place} : (chunkRest statements start).Leads
    (fun _ => True) fun read _ => ∃ scope, read.1 = .mk statements scope := by
  have hany {α : Type} (r : Rule α) : r.Leads (fun _ => True) fun _ _ => True :=
    fun _ _ _ _ _ _ => trivial
  refine (hany closeScope).bind fun scope => (hany current).bind fun token => ?_
  have hplace : (chunkPlace statements start >>= fun placement =>
      pure (Block.mk statements scope, placement)).Leads (fun _ => True)
        fun read _ => ∃ scope, read.1 = .mk statements scope :=
    (hany _).bind fun _ => .give fun _ _ => ⟨scope, rfl⟩
  exact .ite (fun _ => (hany _).bind fun _ => hplace) fun _ => hplace

/-- A chunk with the tokens before it that come into view. If only the second parse fails because of its
outermost block, then what the first reads is to blame. -/
theorem runs_chunkHead {limit limit' : Nat} (hlevels : T.Fit (levels limit) (levels limit')) :
    T.Runs (fun s => s.jumps.pending = []) (fun _ _ => True)
      (fun (read : Block × Placement) error => T.left.Blames error read.1) (chunkHead limit)
      (chunkHead limit') := by
  have hadvance : T.Runs (fun s => s.jumps.pending = []) (fun _ s => s.jumps.pending = []) innocent advance
      advance := .advance fun _ _ _ hs => hs
  have hopen : T.Runs (fun s => s.jumps.pending = []) (fun _ s => s.jumps.pending = []) innocent openScope
      openScope :=
    runs_books _ _ books_openScope books_openScope (fun _ _ h => ⟨rfl, Scope.akin_push h⟩)
      (fun _ _ _ => rfl) fun _ _ _ hs => hs
  refine hadvance.bind fun _ _ _ => hadvance.bind fun _ _ _ => .mark fun start => ?_
  refine Runs.weaken (hopen.bind fun _ _ _ => runs_begin.bind fun _ _ _ =>
    (finds_statements hlevels).bind fun body body' hbody => ?_) fun _ hs => hs.1
  have hrest : T.Runs (fun _ => ∃ origin, Begun origin) (fun _ _ => True)
      (fun (read : Block × Placement) error => T.left.Blames error read.1) (chunkRest body start)
      (chunkRest body' start) :=
    (runs_chunkRest hbody start).mono (fun _ _ => trivial) (fun _ _ hs => hs) fun _ _ hv => hv.elim
  refine Runs.weaken (runs_closeLast ?_ hrest ?_) fun _ hs => hs.mono Findings.nothing_also
  · rintro origin ⟨outer, hpending, rfl⟩
    exact ⟨outer, false, hpending, rfl⟩
  · intro name token hgoto s read t hrun
    obtain ⟨scope, hbody⟩ := chunkRest_body T.left s read t trivial hrun
    rw [hbody]
    exact Findings.blames_of_left hgoto

/-- How two parses of a source may come out. -/
inductive Ends (T : Twins) : Except ParseError Chunk × State → Except ParseError Chunk × State → Prop where
  | both {chunk chunk' : Chunk} {s t : State} : Akin T.erasure chunk.body chunk'.body →
      Akin T.erasure chunk.placement chunk'.placement →
      (T.Collect → Akin T.erasure chunk.comments chunk'.comments) →
      (T.Track → Akin T.erasure chunk.globals chunk'.globals) → Ends T (.ok chunk, s) (.ok chunk', t)
  | failed {error : ParseError} {s t : State} : Ends T (.error error, s) (.error error, t)
  | alone {x : Except ParseError Chunk × State} {error : ParseError} {t : State} :
      T.left.options.checkGotoLabels = false → T.right.options.checkGotoLabels = true →
      (∀ chunk s, x = (.ok chunk, s) →
        T.left.Blames error chunk.body ∨ T.left.BlamesTold error s.log) →
      Ends T x (.error error, t)
  | apart {x y : Except ParseError Chunk × State} : T.Apart x → Ends T x y

/-- What was kept is handed over alike by parses that both keep it. -/
theorem ends_chunk {limit limit' : Nat} (hlevels : T.Fit (levels limit) (levels limit')) {s t : State}
    (hst : T.Related s t) (hs : s.jumps.pending = []) :
    T.Ends (chunkOver (levels limit) T.left s) (chunkOver (levels limit') T.right t) := by
  have hmeet := (runs_chunkHead hlevels).meet s t hst hs
  rw [chunk_eq, chunk_eq]
  match hx : chunkHead limit T.left s, hy : chunkHead limit' T.right t with
  | (x, s'), (y, t') =>
    rw [hx, hy] at hmeet
    cases hmeet with
    | both hread hst' _ =>
      rw [bind_of_ok hx, bind_of_ok hy]
      obtain ⟨hbody, hplacement⟩ := akin_mk.mp hread
      refine .both hbody hplacement (fun hcollect => ?_) fun htrack => ?_
      · show Akin T.erasure (if T.left.options.collectComments then some s'.comments else none)
          (if T.right.options.collectComments then some t'.comments else none)
        rw [show T.left.options.collectComments = T.right.options.collectComments from hcollect]
        split
        · exact akin_some.mpr (hst'.comments hcollect)
        · rfl
      · exact (Scope.akin_takeUnresolved (hst'.scope htrack)).1
    | failed =>
      rw [bind_of_error hx, bind_of_error hy]
      exact .failed
    | alone hl hr htold =>
      rw [bind_of_error hy]
      refine .alone hl hr fun chunk s'' hrun => ?_
      obtain ⟨read, s₁, hread, hfoot⟩ := bind_eq_ok.mp hrun
      cases hfoot
      refine (htold read s₁ (hx.symm.trans hread)).imp_right fun hblames => ?_
      exact hblames.mono fun _ hmem => List.mem_cons_of_mem _ hmem
    | apart ha =>
      refine .apart (.bind ?_ fun read event context s chunk s' hmem hrun => ?_)
      · rw [hx]
        exact ha
      · cases hrun
        exact List.mem_cons_of_mem _ hmem

omit [T.Sound] in
/-- Parses that keep the same come to the same result if nothing is erased and they have not gone apart. -/
theorem Ends.eq_or_apart {x y : Except ParseError Chunk × State} (hends : T.Ends x y)
    (herasure : T.erasure = .nothing) (hcollect : T.Collect) (htrack : T.Track)
    (hchecks : T.left.options.checkGotoLabels = T.right.options.checkGotoLabels) : y.1 = x.1 ∨ T.Apart x := by
  cases hends with
  | both hbody hplacement hcomments hglobals =>
    left
    have hchunk := congr (congr (congrArg₂ Chunk.mk hbody (hcomments hcollect)) (hglobals htrack)) hplacement
    rw [herasure] at hchunk
    exact congrArg Except.ok (Chunk.eq_of_akin hchunk).symm
  | failed => exact .inl rfl
  | alone hl hr =>
    rw [hl, hr] at hchecks
    cases hchecks
  | apart happart => exact .inr happart

end Twins

/-! ## Levels -/

/-- How deep a parse may nest decides only whether it gives up: with more levels it comes to the same result, unless
it has failed for want of them. -/
theorem chunk_deeper (options : ParseOptions) (source : Text) (feed : Feed) (limit more : Nat) :
    (∃ error, (chunkOver (levels limit) (.ofFeed options source feed) (.initial options feed)).1 = .error error ∧
      error.message = .tooManyLevels) ∨
    (chunkOver (levels (limit + more)) (.ofFeed options source feed) (.initial options feed)).1 =
      (chunkOver (levels limit) (.ofFeed options source feed) (.initial options feed)).1 := by
  let T : Twins :=
    { left := .ofFeed options source feed
      right := .ofFeed options source feed
      erasure := .nothing
      excused error := error.message = .tooManyLevels
      strays _ := False }
  have hsound : T.Sound :=
    { source := rfl
      turns := rfl
      overrun := rfl
      features := fun _ _ => rfl
      typed := .inl rfl
      forgets := fun h => absurd rfl h
      checks := id
      placement := fun _ _ => rfl
      scope := fun _ _ => Erasure.scope_nothing }
  have hstart : T.Related (.initial options feed) (.initial options feed) :=
    ⟨rfl, fun _ => rfl, rfl, rfl, rfl, fun _ => rfl, fun _ => rfl, rfl, rfl⟩
  have hends := Twins.ends_chunk (Twins.fit_further (T := T) (fun _ => rfl) limit more) hstart rfl
  rcases hends.eq_or_apart rfl rfl rfl rfl with heq | happart
  · exact .inr heq
  · refine .inl ?_
    generalize chunkOver (levels limit) T.left (.initial options feed) = x at happart
    obtain ⟨result, s⟩ := x
    cases result with
    | ok value => exact (happart.told value s rfl).1.elim fun _ h => h.2.elim
    | error error => exact ⟨error, rfl, happart.failed error s rfl⟩

end LuaSyntax.Grammar
