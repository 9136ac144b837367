import LuaSyntax.Dialect
import LuaSyntax.Proofs.Jumps.Record

/-!
# What a record of jumps shows

Where a parse stands in a function, its record of jumps shows whether the function takes further
arguments, which of the open blocks are loops and, in dialects with labels, the frames of the statements
that were read in those blocks. The operations on the record show what reading does to the frames.
-/

namespace LuaSyntax

/-- What the statements that were read, and the blocks that are open around, mean for what follows. -/
structure Flow where
  checksTargets : Bool
  allowsVararg : Bool
  /-- The frames of the open blocks, the innermost first. -/
  frames : List Frame

/-- The same function with other open blocks. -/
def Flow.within (flow : Flow) (frames : List Frame) : Flow := { flow with frames }

/-- What a record shows. -/
structure Jumps.Shows (dialect : Dialect) (flow : Flow) (jumps : Jumps) : Prop where
  tracksLabels : jumps.tracksLabels = dialect.has .labels
  checksTargets : jumps.checksTargets = flow.checksTargets
  allowsVararg : jumps.allowsVararg = flow.allowsVararg
  loops : jumps.blocks.map JumpBlock.isLoop = flow.frames.map Frame.isLoop
  untracked : dialect.has .labels = false →
    (∀ block ∈ jumps.blocks, block.deferred = []) ∧ jumps.pending = []
  tracked : dialect.has .labels = true → jumps.Tracks flow.frames

variable {frame : Frame} {outer : List Frame}

namespace Jumps

variable {dialect : Dialect} {flow : Flow} {jumps : Jumps}

/-- Without labels a record shows nothing but loops. -/
theorem Shows.change {jumps' : Jumps} {frames' : List Frame} (h : jumps.Shows dialect flow)
    (htracks : jumps'.tracksLabels = jumps.tracksLabels)
    (hchecks : jumps'.checksTargets = jumps.checksTargets)
    (hvararg : jumps'.allowsVararg = jumps.allowsVararg)
    (hloops : jumps'.blocks.map JumpBlock.isLoop = frames'.map Frame.isLoop)
    (huntracked : dialect.has .labels = false →
      (∀ block ∈ jumps'.blocks, block.deferred = []) ∧ jumps'.pending = [])
    (htracked : dialect.has .labels = true → jumps'.Tracks frames') :
    jumps'.Shows dialect (flow.within frames') where
  tracksLabels := htracks.trans h.tracksLabels
  checksTargets := hchecks.trans h.checksTargets
  allowsVararg := hvararg.trans h.allowsVararg
  loops := hloops
  untracked := huntracked
  tracked := htracked

/-- A block that is opened shows as a new frame. -/
theorem Shows.push (h : jumps.Shows dialect flow) (isLoop : Bool) :
    (jumps.push isLoop).Shows dialect (flow.within ({ isLoop } :: flow.frames)) := by
  refine h.change rfl rfl rfl (congrArg (isLoop :: ·) h.loops) (fun hlabels => ?_)
    fun hlabels => (h.tracked hlabels).push isLoop
  obtain ⟨hdeferred, hpending⟩ := h.untracked hlabels
  exact ⟨List.forall_mem_cons.mpr ⟨rfl, hdeferred⟩, hpending⟩

/-- What a record shows in which nothing was noted. -/
theorem shows_new (dialect : Dialect) (checksTargets allowsVararg : Bool) :
    Jumps.Shows dialect { checksTargets, allowsVararg, frames := [] }
      { tracksLabels := dialect.has .labels, checksTargets, allowsVararg } where
  tracksLabels := rfl
  checksTargets := rfl
  allowsVararg := rfl
  loops := rfl
  untracked _ := ⟨List.forall_mem_nil _, rfl⟩
  tracked _ := ⟨.nil, List.forall_mem_nil _, trivial⟩

/-- A function has a record of its own. -/
theorem Shows.fresh (h : jumps.Shows dialect flow) :
    Jumps.Shows dialect { flow with allowsVararg := false, frames := [] }
      { tracksLabels := jumps.tracksLabels
        checksTargets := jumps.checksTargets
        allowsVararg := false } := by
  rw [h.tracksLabels, h.checksTargets]
  exact shows_new dialect flow.checksTargets false

/-- Three dots among the parameters. -/
theorem Shows.allow (h : jumps.Shows dialect flow) :
    Jumps.Shows dialect { flow with allowsVararg := true } { jumps with allowsVararg := true } where
  tracksLabels := h.tracksLabels
  checksTargets := h.checksTargets
  allowsVararg := rfl
  loops := h.loops
  untracked := h.untracked
  tracked hlabels := ⟨(h.tracked hlabels).blocks, (h.tracked hlabels).depth, (h.tracked hlabels).pending⟩

/-- One is in a loop exactly when a frame is that of a loop. -/
theorem Shows.isInLoop (h : jumps.Shows dialect flow) :
    jumps.isInLoop = flow.frames.any Frame.isLoop := by
  have := congrArg (List.any · id) h.loops
  rw [List.any_map, List.any_map] at this
  exact this

/-- What the innermost block shows may change without labels. -/
theorem Shows.untracked_top {frame' : Frame} (h : jumps.Shows dialect (flow.within (frame :: outer)))
    (hlabels : dialect.has .labels = false) (hloop : frame'.isLoop = frame.isLoop) :
    jumps.Shows dialect (flow.within (frame' :: outer)) := by
  refine h.change rfl rfl rfl ?_ h.untracked fun hlabels' => ?_
  · rw [List.map_cons, hloop]
    exact h.loops
  · rw [hlabels] at hlabels'
    cases hlabels'

/-- A local that is declared shows in its frame. -/
theorem Shows.addLocal (h : jumps.Shows dialect (flow.within (frame :: outer))) (name : String) :
    (jumps.addLocal name).Shows dialect (flow.within (frame.declare 1 :: outer)) := by
  cases hlabels : dialect.has .labels with
  | false =>
    have hsame : jumps.addLocal name = jumps := by
      simp only [Jumps.addLocal, h.tracksLabels, hlabels]
    rw [hsame]
    exact h.untracked_top hlabels rfl
  | true =>
    have htracks := h.tracksLabels.trans hlabels
    obtain ⟨block, blocks, -, -, hblocks⟩ :=
      List.forall₂_cons_right_iff.mp (h.tracked hlabels).blocks
    have hadded : jumps.addLocal name =
        { jumps with blocks := { block with locals := block.locals ++ [name] } :: blocks } := by
      simp only [Jumps.addLocal, htracks, hblocks]
    have hloops := h.loops
    rw [hblocks] at hloops
    have htracked := (h.tracked hlabels).addLocal htracks name
    rw [hadded] at htracked ⊢
    exact h.change rfl rfl rfl hloops (fun hnot => Bool.noConfusion (hlabels.symm.trans hnot))
      fun _ => htracked

/-- A jump that is met shows in its frame. -/
theorem Shows.addGoto (h : jumps.Shows dialect (flow.within (frame :: outer))) (name : String)
    (token : Token) : (jumps.addGoto name token).Shows dialect
      (flow.within (frame.jump (visibleLabels outer) [name] :: outer)) := by
  cases hlabels : dialect.has .labels with
  | false =>
    have hsame : jumps.addGoto name token = jumps := by
      rw [Jumps.addGoto, h.tracksLabels, hlabels]
      rfl
    rw [hsame]
    exact h.untracked_top hlabels rfl
  | true =>
    have htracked := (h.tracked hlabels).addGoto (h.tracksLabels.trans hlabels) name token
    refine h.change ?_ ?_ ?_ ?_ (fun hnot => Bool.noConfusion (hlabels.symm.trans hnot)) fun _ => htracked
    · rw [Jumps.addGoto]
      split <;> rfl
    · rw [Jumps.addGoto]
      split <;> rfl
    · rw [Jumps.addGoto]
      split <;> rfl
    · refine Eq.trans ?_ h.loops
      rw [Jumps.addGoto]
      split <;> rfl

/-- In a dialect with labels, a label can be read if its block does not have it. -/
theorem Shows.addLabel (h : jumps.Shows dialect (flow.within (frame :: outer)))
    (hlabels : dialect.has .labels = true) {name : String} (hname : name ∉ frame.labels)
    (token : Token) : ∃ jumps', jumps.addLabel name token = .ok jumps' ∧
      jumps'.Shows dialect (flow.within (frame.label name :: outer)) := by
  have htracks := h.tracksLabels.trans hlabels
  obtain ⟨jumps', hadded, htracked⟩ := (h.tracked hlabels).addLabel htracks hname token
  refine ⟨jumps', hadded, ?_⟩
  obtain ⟨block, blocks, -, -, hblocks⟩ := List.forall₂_cons_right_iff.mp (h.tracked hlabels).blocks
  have hloops := h.loops
  rw [hblocks] at hloops
  simp only [Jumps.addLabel, htracks, hblocks] at hadded
  split at hadded
  · cases hadded
  · cases hadded
    exact h.change htracks.symm rfl rfl hloops (fun hnot => Bool.noConfusion (hlabels.symm.trans hnot))
      fun _ => htracked

/-- A label is added only to a block that has none of that name. -/
theorem Shows.addLabel_eq_ok {jumps' : Jumps}
    (h : jumps.Shows dialect (flow.within (frame :: outer))) (hlabels : dialect.has .labels = true)
    {name : String} {token : Token} (hadded : jumps.addLabel name token = .ok jumps') :
    name ∉ frame.labels := by
  intro hname
  obtain ⟨fault, herror⟩ :=
    (h.tracked hlabels).addLabel_error (h.tracksLabels.trans hlabels) hname token
  rw [hadded] at herror
  cases herror

/-- A block may go on if no jump in it was put aside. -/
theorem Shows.checkDeferred (h : jumps.Shows dialect (flow.within (frame :: outer))) :
    (∃ value, jumps.checkDeferred = .ok value) ↔
      (dialect.has .labels = true → frame.crossed = false) := by
  cases hlabels : dialect.has .labels with
  | false =>
    refine ⟨fun _ => nofun, fun _ => ?_⟩
    have hdeferred := (h.untracked hlabels).1
    simp only [Jumps.checkDeferred]
    cases hblocks : jumps.blocks with
    | nil => exact ⟨(), rfl⟩
    | cons block blocks =>
      have hnone := hdeferred block (hblocks ▸ List.mem_cons_self)
      simp only [hnone]
      exact ⟨(), trivial⟩
  | true =>
    rw [(h.tracked hlabels).checkDeferred]
    exact ⟨fun hcrossed _ => hcrossed, fun hcrossed => hcrossed rfl⟩

/-- To close a block changes nothing but the blocks. -/
theorem pop_keeps {jumps' : Jumps} (h : jumps.pop = .ok jumps') :
    jumps'.tracksLabels = jumps.tracksLabels ∧ jumps'.checksTargets = jumps.checksTargets ∧
      jumps'.allowsVararg = jumps.allowsVararg ∧ jumps'.blocks = jumps.blocks.drop 1 := by
  simp only [Jumps.pop] at h
  split at h
  · split at h
    · cases h
    · cases h
      exact ⟨rfl, rfl, rfl, rfl⟩
  · cases h
    exact ⟨rfl, rfl, rfl, rfl⟩

/-- A block that closes inside another. -/
theorem Shows.pop {inside : Frame} {names : List String}
    (h : jumps.Shows dialect (flow.within (inside :: frame :: outer)))
    (hnames : dialect.has .labels = true → ∀ name, (∃ count, (name, count) ∈ inside.pending) ↔
      name ∈ names ∧ name ∉ visibleLabels (frame :: outer)) :
    ∃ jumps', jumps.pop = .ok jumps' ∧ jumps'.Shows dialect
      (flow.within (frame.jump (visibleLabels outer) names :: outer)) := by
  have hloops : (jumps.blocks.drop 1).map JumpBlock.isLoop =
      (frame.jump (visibleLabels outer) names :: outer).map Frame.isLoop := by
    rw [List.map_drop, h.loops]
    rfl
  cases hlabels : dialect.has .labels with
  | false =>
    obtain ⟨hdeferred, hpending⟩ := h.untracked hlabels
    refine ⟨{ jumps with blocks := jumps.blocks.drop 1 }, ?_, ?_⟩
    · simp only [Jumps.pop, hpending]
      rfl
    · exact h.change rfl rfl rfl hloops
        (fun _ => ⟨fun block hmem => hdeferred block (List.mem_of_mem_drop hmem), hpending⟩)
        fun htrue => Bool.noConfusion (hlabels.symm.trans htrue)
  | true =>
    obtain ⟨jumps', hok, htracked⟩ := (h.tracked hlabels).pop (hnames hlabels)
    obtain ⟨htracks, hchecks, hvararg, hblocks⟩ := pop_keeps hok
    exact ⟨jumps', hok, h.change htracks hchecks hvararg (hblocks ▸ hloops)
      (fun hnot => Bool.noConfusion (hlabels.symm.trans hnot)) fun _ => htracked⟩

/-- Whether the outermost block of a function can be closed. -/
theorem Shows.pop_last (h : jumps.Shows dialect (flow.within [frame])) :
    (∃ jumps', jumps.pop = .ok jumps') ↔
      (dialect.has .labels = true → flow.checksTargets = true → frame.pending = []) := by
  cases hlabels : dialect.has .labels with
  | false =>
    refine ⟨fun _ => nofun, fun _ => ⟨{ jumps with blocks := jumps.blocks.drop 1 }, ?_⟩⟩
    simp only [Jumps.pop, (h.untracked hlabels).2]
    rfl
  | true =>
    rw [(h.tracked hlabels).pop_last, h.checksTargets]
    exact ⟨fun hnone _ => hnone, fun hnone => hnone rfl⟩

/-- Nothing is left when the outermost block has closed. -/
theorem Shows.pop_last_shows {jumps' : Jumps} (h : jumps.Shows dialect (flow.within [frame]))
    (hpop : jumps.pop = .ok jumps') : jumps'.Shows dialect (flow.within []) := by
  obtain ⟨htracks, hchecks, hvararg, hblocks⟩ := pop_keeps hpop
  have hnil : jumps'.blocks = [] := by
    have hlength := congrArg List.length h.loops
    rw [List.length_map, List.length_map] at hlength
    rw [hblocks, List.drop_eq_nil_iff, hlength]
    exact Nat.le_refl 1
  have hpending : jumps'.pending = [] := by
    have hdepth : ∀ goto ∈ jumps.pending.map (·.leave jumps.depth), goto.depth = 0 := by
      intro left hleft
      obtain ⟨goto, hmem, rfl⟩ := List.mem_map.mp hleft
      cases hlabels : dialect.has .labels with
      | false =>
        rw [(h.untracked hlabels).2] at hmem
        cases hmem
      | true =>
        have hdepth : 0 < goto.depth ∧ goto.depth ≤ 1 := (h.tracked hlabels).depth goto hmem
        have hlength : jumps.depth = 1 := (h.tracked hlabels).depth_eq
        rw [PendingGoto.depth_leave, hlength]
        split <;> omega
    simp only [Jumps.pop] at hpop
    split at hpop
    · split at hpop
      · cases hpop
      · cases hpop
        refine List.filter_eq_nil_iff.mpr fun goto hmem => ?_
        rw [hdepth goto hmem]
        exact Bool.false_ne_true
    · next hfind =>
      cases hpop
      rw [List.find?_eq_none] at hfind
      refine List.eq_nil_iff_forall_not_mem.mpr fun goto hmem => hfind goto hmem ?_
      rw [hdepth goto hmem]
      rfl
  refine h.change htracks hchecks hvararg (by rw [hnil]; rfl) (fun _ => ?_) fun _ => ?_
  · rw [hnil, hpending]
    exact ⟨List.forall_mem_nil _, rfl⟩
  · refine ⟨by rw [hnil]; exact .nil, ?_, trivial⟩
    rw [hpending]
    exact List.forall_mem_nil _

end Jumps

end LuaSyntax
