import LuaSyntax.Jump
import LuaSyntax.Proofs.Jumps.Frame

/-!
# The record of jumps and the frames of a tree

While a function is read, its record of jumps has a block for each block that is open, and tracks the
frames of the statements that were read in each. Gotos that wait are kept in one list for all blocks
and in the frame of the block in which they may still be resolved; the two agree on which labels are
waited for, and on how many locals there were.

Every operation on the record does to what it tracks what reading does to the frames, and fails exactly
if a frame does not admit what was read.
-/

namespace LuaSyntax

/-- The labels that were read in open blocks. -/
def visibleLabels (frames : List Frame) : List String := frames.flatMap Frame.labels

/-- What a block of a record shows. -/
structure JumpBlock.Shows (block : JumpBlock) (frame : Frame) : Prop where
  isLoop : block.isLoop = frame.isLoop
  labels : ∀ name, block.hasLabel name = true ↔ name ∈ frame.labels
  locals : block.locals.length = frame.locals
  deferred : block.deferred = [] ↔ frame.crossed = false

/-- What waiting gotos show. -/
def PendingShow (pending : List PendingGoto) : List Frame → Prop
  | [] => True
  | frame :: outer =>
    (∀ name count, (name, count) ∈ frame.pending ↔ ∃ goto ∈ pending,
      goto.depth = outer.length + 1 ∧ goto.target = name ∧ goto.localsAt goto.depth = count) ∧
    (∀ goto ∈ pending, outer.length + 1 < goto.depth →
      goto.localsAt (outer.length + 1) = frame.locals) ∧
    PendingShow pending outer

/-- What a record shows where labels are tracked. -/
structure Jumps.Tracks (jumps : Jumps) (frames : List Frame) : Prop where
  blocks : List.Forall₂ JumpBlock.Shows jumps.blocks frames
  depth : ∀ goto ∈ jumps.pending, 0 < goto.depth ∧ goto.depth ≤ frames.length
  pending : PendingShow jumps.pending frames

variable {pending : List PendingGoto} {frame : Frame} {frames outer : List Frame}
  {goto : PendingGoto}

/-! ## Waiting gotos -/

/-- What is pending shows in a frame that changes nothing of it. -/
theorem PendingShow.top {frame' : Frame} (h : PendingShow pending (frame :: outer))
    (hdepth : ∀ goto ∈ pending, goto.depth ≤ outer.length + 1)
    (hpending : frame'.pending = frame.pending) : PendingShow pending (frame' :: outer) := by
  refine ⟨hpending ▸ h.1, fun goto hmem hlt => ?_, h.2.2⟩
  have := hdepth goto hmem
  omega

/-- Gotos that wait in blocks further inside may be dropped. -/
theorem PendingShow.filter {keeps : PendingGoto → Bool} (h : PendingShow pending frames)
    (hkeeps : ∀ goto ∈ pending, keeps goto = false → frames.length < goto.depth) :
    PendingShow (pending.filter keeps) frames := by
  induction frames with
  | nil => trivial
  | cons frame outer ih =>
    refine ⟨fun name count => ?_, fun goto hmem => h.2.1 goto (List.mem_filter.mp hmem).1,
      ih h.2.2 fun goto hmem hkeep => Nat.lt_of_succ_lt (hkeeps goto hmem hkeep)⟩
    rw [h.1 name count]
    refine exists_congr fun goto => ⟨fun ⟨hmem, hdepth, hrest⟩ => ?_, fun ⟨hmem, hrest⟩ =>
      ⟨(List.mem_filter.mp hmem).1, hrest⟩⟩
    refine ⟨List.mem_filter.mpr ⟨hmem, ?_⟩, hdepth, hrest⟩
    cases hkeep : keeps goto with
    | true => rfl
    | false =>
      have := hkeeps goto hmem hkeep
      rw [List.length_cons] at this
      omega

/-- Gotos may come to wait in blocks further inside. -/
theorem PendingShow.concat (h : PendingShow pending frames) (hdepth : frames.length < goto.depth)
    (hcounts : ∀ frame outer, (frame :: outer) <:+ frames →
      goto.localsAt (outer.length + 1) = frame.locals) :
    PendingShow (pending ++ [goto]) frames := by
  induction frames with
  | nil => trivial
  | cons frame outer ih =>
    rw [List.length_cons] at hdepth
    refine ⟨fun name count => ?_, fun other hmem hlt => ?_, ih h.2.2 (by omega)
      fun frame' outer' hsuffix => hcounts frame' outer' (hsuffix.trans (List.suffix_cons _ _))⟩
    · rw [h.1 name count]
      refine exists_congr fun other => and_congr_left fun hother => ?_
      rw [List.mem_append, List.mem_singleton]
      refine ⟨.inl, fun hmem => hmem.resolve_right ?_⟩
      rintro rfl
      omega
    · rcases List.mem_append.mp hmem with hmem | hmem
      · exact h.2.1 other hmem hlt
      · obtain rfl := List.mem_singleton.mp hmem
        exact hcounts frame outer (List.suffix_refl _)

namespace PendingGoto

/-- To leave a block takes a jump one block out if it was as deep. -/
theorem depth_leave (closing : Nat) : (goto.leave closing).depth =
    if closing ≤ goto.depth then goto.depth - 1 else goto.depth := by
  rw [leave]
  split <;> rfl

/-- To leave a block does not change the target. -/
theorem target_leave (closing : Nat) : (goto.leave closing).target = goto.target := by
  rw [leave]
  split <;> rfl

/-- To leave a block does not change the locals counted at any depth. -/
theorem localsAt_leave (closing depth : Nat) :
    (goto.leave closing).localsAt depth = goto.localsAt depth := by
  rw [leave]
  split <;> rfl

end PendingGoto

/-- A block that closes changes nothing for the blocks around its surrounding one. -/
theorem PendingShow.leave {closing : Nat} (h : PendingShow pending frames)
    (hclosing : frames.length + 1 < closing) :
    PendingShow (pending.map (·.leave closing)) frames := by
  induction frames with
  | nil => trivial
  | cons frame outer ih =>
    rw [List.length_cons] at hclosing
    refine ⟨fun name count => ?_, fun goto hmem hlt => ?_, ih h.2.2 (by omega)⟩
    · rw [h.1 name count]
      simp only [List.mem_map, exists_exists_and_eq_and, PendingGoto.localsAt_leave,
        PendingGoto.target_leave, PendingGoto.depth_leave]
      refine exists_congr fun goto => and_congr_right fun _ => ?_
      split
      · constructor <;> (rintro ⟨h, -⟩; omega)
      · exact Iff.rfl
    · obtain ⟨other, hother, rfl⟩ := List.mem_map.mp hmem
      rw [PendingGoto.localsAt_leave]
      refine h.2.1 other hother ?_
      rw [PendingGoto.depth_leave] at hlt
      split at hlt <;> omega

/-! ## Records -/

/-- A block has a label exactly when the label is visible in its frame. -/
theorem mem_visibleLabels {blocks : List JumpBlock} (h : List.Forall₂ JumpBlock.Shows blocks frames)
    (name : String) :
    (blocks.any fun block => block.hasLabel name) = true ↔ name ∈ visibleLabels frames := by
  rw [visibleLabels, List.mem_flatMap, List.any_eq_true]
  induction h with
  | nil => simp
  | cons hblock _ ih =>
    simp only [List.mem_cons, exists_eq_or_imp]
    exact or_congr (hblock.labels name) ih

/-- Blocks have the locals their frames count. -/
theorem map_locals {blocks : List JumpBlock} (h : List.Forall₂ JumpBlock.Shows blocks frames) :
    blocks.map (fun block => block.locals.length) = frames.map Frame.locals := by
  induction h with
  | nil => rfl
  | cons hblock _ ih => rw [List.map_cons, List.map_cons, hblock.locals, ih]

/-- The locals of the blocks around a frame are counted from the outermost. -/
theorem getElem?_locals (h : (frame :: outer) <:+ frames) :
    (frames.map Frame.locals).reverse[outer.length]? = some frame.locals := by
  obtain ⟨inside, rfl⟩ := h
  simp

namespace Jumps

variable {jumps : Jumps}

/-- There are as many blocks as frames. -/
theorem Tracks.depth_eq (h : jumps.Tracks frames) : jumps.depth = frames.length := h.blocks.length_eq

/-- A block that is opened is a new frame. -/
theorem Tracks.push (h : jumps.Tracks frames) (isLoop : Bool) :
    (jumps.push isLoop).Tracks ({ isLoop } :: frames) where
  blocks := .cons ⟨rfl, fun name => by simp [JumpBlock.hasLabel], rfl, by simp⟩ h.blocks
  depth goto hmem := ⟨(h.depth goto hmem).1, Nat.le_succ_of_le (h.depth goto hmem).2⟩
  pending := by
    refine ⟨fun name count => ⟨nofun, ?_⟩, fun goto hmem hlt => ?_, h.pending⟩
    · rintro ⟨goto, hmem, hdepth, -⟩
      have := (h.depth goto hmem).2
      omega
    · have := (h.depth goto hmem).2
      omega

/-- A local that is declared is counted by the frame. -/
theorem Tracks.addLocal (h : jumps.Tracks (frame :: outer)) (htracks : jumps.tracksLabels = true)
    (name : String) : (jumps.addLocal name).Tracks (frame.declare 1 :: outer) := by
  obtain ⟨tracks, checks, vararg, blocks, pending⟩ := jumps
  obtain rfl : tracks = true := htracks
  obtain ⟨hblocks, hdepth, hpending⟩ := h
  cases hblocks with
  | cons hblock houter =>
    refine ⟨.cons ⟨hblock.isLoop, hblock.labels, ?_, hblock.deferred⟩ houter, hdepth,
      hpending.top (fun goto hmem => (hdepth goto hmem).2) rfl⟩
    rw [List.length_append, hblock.locals]
    rfl

/-- A goto that begins to wait in the innermost block. -/
theorem Tracks.await (h : jumps.Tracks (frame :: outer)) (goto : PendingGoto) (hgoto : goto.depth = outer.length + 1)
    (hcounts : ∀ frame' outer', (frame' :: outer') <:+ frame :: outer →
      goto.localsAt (outer'.length + 1) = frame'.locals) :
    Tracks { jumps with pending := jumps.pending ++ [goto] }
      ({ frame with pending := frame.pending ++ [(goto.target, frame.locals)] } :: outer) := by
  obtain ⟨hblocks, hdepth, hpending⟩ := h
  have hlocals : goto.localsAt goto.depth = frame.locals := by
    rw [hgoto]
    exact hcounts frame outer (List.suffix_refl _)
  refine ⟨?_, fun other hmem => ?_, fun name count => ?_, fun other hmem hlt => ?_, ?_⟩
  · obtain ⟨block, blocks, hblock, houter, heq⟩ := List.forall₂_cons_right_iff.mp hblocks
    show List.Forall₂ _ jumps.blocks _
    rw [heq]
    exact .cons ⟨hblock.isLoop, hblock.labels, hblock.locals, hblock.deferred⟩ houter
  · rcases List.mem_append.mp hmem with hmem | hmem
    · exact hdepth other hmem
    · obtain rfl := List.mem_singleton.mp hmem
      exact ⟨by omega, by rw [List.length_cons]; omega⟩
  · simp only [List.mem_append, List.mem_singleton, Prod.mk.injEq, hpending.1]
    constructor
    · rintro (⟨other, hmem, hrest⟩ | ⟨rfl, rfl⟩)
      · exact ⟨other, .inl hmem, hrest⟩
      · exact ⟨goto, .inr rfl, hgoto, rfl, hlocals⟩
    · rintro ⟨other, hmem | rfl, hother, rfl, rfl⟩
      · exact .inl ⟨other, hmem, hother, rfl, rfl⟩
      · exact .inr ⟨rfl, hlocals⟩
  · rcases List.mem_append.mp hmem with hmem | hmem
    · have := (hdepth other hmem).2
      rw [List.length_cons] at this
      omega
    · obtain rfl := List.mem_singleton.mp hmem
      omega
  · exact hpending.2.2.concat (by omega) fun frame' outer' hsuffix =>
      hcounts frame' outer' (hsuffix.trans (List.suffix_cons _ _))

/-- A goto waits unless its label was read. -/
theorem Tracks.addGoto (h : jumps.Tracks (frame :: outer)) (htracks : jumps.tracksLabels = true)
    (name : String) (token : Token) :
    (jumps.addGoto name token).Tracks (frame.jump (visibleLabels outer) [name] :: outer) := by
  have hvisible : (jumps.blocks.any fun block => block.hasLabel name) = true ↔
      name ∈ frame.labels ++ visibleLabels outer := mem_visibleLabels h.blocks name
  by_cases hname : name ∈ frame.labels ++ visibleLabels outer
  · rw [Jumps.addGoto, hvisible.mpr hname, Bool.not_true, Bool.and_false, Frame.jump_of_mem hname]
    exact h
  · have hwaits : (jumps.tracksLabels &&
        !jumps.blocks.any fun block => block.hasLabel name) = true := by
      rw [htracks, Bool.eq_false_iff.mpr (mt hvisible.mp hname)]
      rfl
    rw [Jumps.addGoto, if_pos hwaits, Frame.jump_of_not_mem hname]
    let goto : PendingGoto :=
      { depth := jumps.depth
        target := name
        token
        localCounts := (jumps.blocks.map fun block => block.locals.length).reverse }
    have hcounts : goto.localCounts = ((frame :: outer).map Frame.locals).reverse :=
      congrArg List.reverse (map_locals h.blocks)
    refine h.await goto h.depth_eq fun frame' outer' hsuffix => ?_
    rw [PendingGoto.localsAt, hcounts, Nat.add_sub_cancel, getElem?_locals hsuffix]
    rfl

/-- A label that a block does not have yet settles what waits for it in the block. -/
theorem Tracks.addLabel (h : jumps.Tracks (frame :: outer)) (htracks : jumps.tracksLabels = true)
    {name : String} (hname : name ∉ frame.labels) (token : Token) :
    ∃ jumps', jumps.addLabel name token = .ok jumps' ∧ jumps'.Tracks (frame.label name :: outer) := by
  obtain ⟨block, blocks, hblock, houter, hblocks⟩ := List.forall₂_cons_right_iff.mp h.blocks
  have hnot : block.labels.find? (fun entry => entry.1 == name) = none := by
    have := mt (hblock.labels name).mp hname
    rw [JumpBlock.hasLabel, List.any_eq_true, not_exists] at this
    exact List.find?_eq_none.mpr fun entry hmem heq => this entry ⟨hmem, heq⟩
  refine ⟨_, by simp only [Jumps.addLabel, htracks, hblocks]; rw [show _ = _ from hnot], ?_⟩
  have hlength : jumps.depth = outer.length + 1 := h.depth_eq
  have hsettled (goto : PendingGoto) (hmem : goto ∈ jumps.pending) :
      (decide (jumps.depth ≤ goto.depth) && goto.target == name) = true ↔
        goto.depth = outer.length + 1 ∧ goto.target = name := by
    have hdepth := h.depth goto hmem
    rw [List.length_cons] at hdepth
    rw [Bool.and_eq_true, decide_eq_true_eq, beq_iff_eq, hlength]
    constructor <;> rintro ⟨_, rfl⟩ <;> exact ⟨by omega, rfl⟩
  constructor
  · refine .cons ⟨hblock.isLoop, fun other => ?_, hblock.locals, ?_⟩ houter
    · rw [JumpBlock.hasLabel, List.any_cons, Bool.or_eq_true, Frame.label, List.mem_cons]
      exact or_congr ⟨fun h => (beq_iff_eq.mp h).symm, fun h => beq_iff_eq.mpr h.symm⟩
        (hblock.labels other)
    · rw [List.append_eq_nil_iff, hblock.deferred, Frame.label, Bool.or_eq_false_iff]
      refine and_congr_right fun _ => ?_
      rw [List.filter_eq_nil_iff, List.any_eq_false]
      constructor
      · rintro hnone ⟨other, count⟩ hmem hcrosses
        obtain ⟨goto, hgoto, hdepth, rfl, rfl⟩ := (h.pending.1 other count).mp hmem
        rw [Bool.and_eq_true, beq_iff_eq, decide_eq_true_eq] at hcrosses
        refine hnone goto hgoto (Bool.and_eq_true_iff.mpr
          ⟨(hsettled goto hgoto).mpr ⟨hdepth, hcrosses.1⟩, decide_eq_true ?_⟩)
        rw [hlength, ← hdepth, hblock.locals]
        exact hcrosses.2
      · intro hnone goto hgoto hcrosses
        obtain ⟨hsettles, henters⟩ := Bool.and_eq_true_iff.mp hcrosses
        obtain ⟨hdepth, htarget⟩ := (hsettled goto hgoto).mp hsettles
        refine hnone (name, goto.localsAt goto.depth)
          ((h.pending.1 _ _).mpr ⟨goto, hgoto, hdepth, htarget, rfl⟩)
          (Bool.and_eq_true_iff.mpr ⟨beq_self_eq_true name, decide_eq_true ?_⟩)
        have hlt := of_decide_eq_true henters
        rwa [hlength, ← hdepth, hblock.locals] at hlt
  · exact fun goto hmem => h.depth goto (List.mem_filter.mp hmem).1
  · refine ⟨fun other count => ?_, fun goto hmem hlt => ?_, h.pending.2.2.filter fun goto hmem hkeep => ?_⟩
    · rw [Frame.label, List.mem_filter, bne_iff_ne, h.pending.1]
      constructor
      · rintro ⟨⟨goto, hmem, hdepth, rfl, rfl⟩, hother⟩
        refine ⟨goto, List.mem_filter.mpr ⟨hmem, ?_⟩, hdepth, rfl, rfl⟩
        rw [Bool.not_eq_true', Bool.eq_false_iff]
        exact fun hsettles => hother ((hsettled goto hmem).mp hsettles).2
      · rintro ⟨goto, hmem, hdepth, rfl, rfl⟩
        obtain ⟨hmem, hkeep⟩ := List.mem_filter.mp hmem
        refine ⟨⟨goto, hmem, hdepth, rfl, rfl⟩, fun htarget => ?_⟩
        rw [(hsettled goto hmem).mpr ⟨hdepth, htarget⟩] at hkeep
        cases hkeep
    · exact h.pending.2.1 goto (List.mem_filter.mp hmem).1 hlt
    · rw [Bool.not_eq_false'] at hkeep
      rw [((hsettled goto hmem).mp hkeep).1]
      exact Nat.lt_succ_self _

/-- A label that a block has already. -/
theorem Tracks.addLabel_error (h : jumps.Tracks (frame :: outer)) (htracks : jumps.tracksLabels = true)
    {name : String} (hname : name ∈ frame.labels) (token : Token) :
    ∃ fault, jumps.addLabel name token = .error fault := by
  obtain ⟨block, blocks, hblock, -, hblocks⟩ := List.forall₂_cons_right_iff.mp h.blocks
  obtain ⟨entry, hentry, heq⟩ := List.any_eq_true.mp ((hblock.labels name).mpr hname)
  cases hfind : block.labels.find? (fun entry => entry.1 == name) with
  | none => exact absurd heq (List.find?_eq_none.mp hfind entry hentry)
  | some found =>
    simp only [Jumps.addLabel, htracks, hblocks]
    rw [show _ = _ from hfind]
    exact ⟨_, rfl⟩

/-- The check passes exactly when no jump of the frame crosses a local. -/
theorem Tracks.checkDeferred (h : jumps.Tracks (frame :: outer)) :
    (∃ value, jumps.checkDeferred = .ok value) ↔ frame.crossed = false := by
  obtain ⟨block, blocks, hblock, -, hblocks⟩ := List.forall₂_cons_right_iff.mp h.blocks
  rw [← hblock.deferred]
  simp only [Jumps.checkDeferred, hblocks]
  cases block.deferred with
  | nil => exact ⟨fun _ => rfl, fun _ => ⟨(), rfl⟩⟩
  | cons goto rest => exact ⟨nofun, nofun⟩

/-- A block that closes inside another leaves the other what was not settled in it. -/
theorem Tracks.pop {inside : Frame} {names : List String}
    (h : jumps.Tracks (inside :: frame :: outer))
    (hnames : ∀ name, (∃ count, (name, count) ∈ inside.pending) ↔
      name ∈ names ∧ name ∉ visibleLabels (frame :: outer)) :
    ∃ jumps', jumps.pop = .ok jumps' ∧
      jumps'.Tracks (frame.jump (visibleLabels outer) names :: outer) := by
  have hlength : jumps.depth = outer.length + 2 := h.depth_eq
  have hdepth (goto : PendingGoto) (hmem : goto ∈ jumps.pending) :
      0 < goto.depth ∧ goto.depth ≤ outer.length + 2 := h.depth goto hmem
  have hnone : (jumps.pending.map (·.leave jumps.depth)).find?
      (fun goto => !decide (0 < goto.depth)) = none := by
    refine List.find?_eq_none.mpr fun left hleft => ?_
    obtain ⟨goto, hmem, rfl⟩ := List.mem_map.mp hleft
    have := hdepth goto hmem
    rw [PendingGoto.depth_leave, hlength, Bool.not_eq_true, Bool.not_eq_false', decide_eq_true_eq]
    split <;> omega
  refine ⟨{ jumps with
    blocks := jumps.blocks.drop 1
    pending := jumps.pending.map (·.leave jumps.depth) }, ?_, ?_, ?_, ?_⟩
  · simp only [Jumps.pop, hnone]
  · obtain ⟨block, blocks, -, hblocks, heq⟩ := List.forall₂_cons_right_iff.mp h.blocks
    obtain ⟨block', blocks', hblock, houter, rfl⟩ := List.forall₂_cons_right_iff.mp hblocks
    show List.Forall₂ _ (jumps.blocks.drop 1) _
    rw [heq]
    exact .cons ⟨hblock.isLoop, hblock.labels, hblock.locals, hblock.deferred⟩ houter
  · intro left hleft
    obtain ⟨goto, hmem, rfl⟩ := List.mem_map.mp hleft
    have := hdepth goto hmem
    rw [PendingGoto.depth_leave, hlength, List.length_cons]
    split <;> omega
  · rw [hlength]
    refine ⟨fun name count => ?_, fun left hleft hlt => ?_, h.pending.2.2.2.2.leave (by omega)⟩
    · -- what waits was left by the closing block, or waited before
      have hpending : (name, count) ∈ (frame.jump (visibleLabels outer) names).pending ↔
          (name, count) ∈ frame.pending ∨
            (∃ count, (name, count) ∈ inside.pending) ∧ count = frame.locals := by
        rw [hnames]
        exact Frame.mem_pending_jump
      rw [hpending, h.pending.2.2.1]
      simp only [h.pending.1, List.mem_map, exists_exists_and_eq_and, PendingGoto.localsAt_leave,
        PendingGoto.target_leave, PendingGoto.depth_leave, List.length_cons]
      constructor
      · rintro (⟨goto, hmem, hgoto, rfl, rfl⟩ | ⟨⟨_, goto, hmem, hgoto, rfl, -⟩, rfl⟩)
        · rw [← hgoto]
          exact ⟨goto, hmem, by rw [if_neg]; omega, rfl, by rw [if_neg]; omega⟩
        · have hcount := h.pending.2.2.2.1 goto hmem (by omega)
          refine ⟨goto, hmem, ?_, rfl, ?_⟩
          · rw [if_pos (by omega)]
            omega
          · rw [if_pos (by omega), ← hcount, hgoto]
            rfl
      · rintro ⟨goto, hmem, hgoto, rfl, rfl⟩
        have := hdepth goto hmem
        split at hgoto
        · next hle =>
          refine .inr ⟨⟨_, goto, hmem, by omega, rfl, rfl⟩, ?_⟩
          rw [if_pos hle, hgoto]
          exact h.pending.2.2.2.1 goto hmem (by omega)
        · next hlt =>
          rw [if_neg hlt]
          exact .inl ⟨goto, hmem, hgoto, rfl, rfl⟩
    · obtain ⟨goto, hmem, rfl⟩ := List.mem_map.mp hleft
      have := hdepth goto hmem
      rw [PendingGoto.depth_leave] at hlt
      split at hlt <;> omega

/-- The outermost block of a function can be closed if nothing waits for a label, or if that is not
checked. -/
theorem Tracks.pop_last (h : jumps.Tracks [frame]) :
    (∃ jumps', jumps.pop = .ok jumps') ↔ (jumps.checksTargets = true → frame.pending = []) := by
  have hdepth (goto : PendingGoto) (hmem : goto ∈ jumps.pending) : goto.depth = 1 := by
    have := h.depth goto hmem
    rw [List.length_singleton] at this
    omega
  have hpending : frame.pending = [] ↔ jumps.pending = [] := by
    simp only [List.eq_nil_iff_forall_not_mem, Prod.forall, h.pending.1, not_exists, not_and]
    constructor
    · exact fun hnone goto hmem => hnone _ _ goto hmem (hdepth goto hmem) rfl rfl
    · exact fun hnone _ _ goto hmem => absurd hmem (hnone goto)
  have hlength : jumps.depth = 1 := h.depth_eq
  rw [hpending]
  simp only [Jumps.pop]
  cases hjumps : jumps.pending with
  | nil => exact ⟨fun _ _ => rfl, fun _ => ⟨_, rfl⟩⟩
  | cons goto rest =>
    have hgoto : (goto.leave jumps.depth).depth = 0 := by
      rw [PendingGoto.depth_leave, hlength, hdepth goto (hjumps ▸ List.mem_cons_self)]
      rfl
    rw [List.map_cons, List.find?_cons_of_pos (by rw [hgoto]; rfl)]
    cases jumps.checksTargets with
    | true => exact ⟨nofun, fun hnone => absurd (hnone rfl) nofun⟩
    | false => exact ⟨fun _ => nofun, fun _ => ⟨_, rfl⟩⟩

end Jumps

end LuaSyntax
