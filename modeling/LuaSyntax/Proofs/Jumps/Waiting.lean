import LuaSyntax.Proofs.Jumps.Shows

/-!
# Gotos that wait

A `goto` waits in an open block and has found no label in that block or in those around it; `Coherent`
says so of all gotos that wait in a record. Reading statements in the innermost block lets further gotos
wait in it and adds labels to it. `Grows` says which ones at most, and which ones at least. When the
block closes, a `goto` that waits in it has none of these labels.
-/

namespace LuaSyntax

/-- To leave a block does not change the token of a jump. -/
@[simp] theorem PendingGoto.token_leave (goto : PendingGoto) (closing : Nat) :
    (goto.leave closing).token = goto.token := by
  rw [leave]
  split <;> rfl

namespace Jumps

/-- Whether a record has a `goto` wait where it could be waiting. -/
structure Awaits (jumps : Jumps) (goto : PendingGoto) : Prop where
  tracks : jumps.tracksLabels = true
  pos : 0 < goto.depth
  le : goto.depth ≤ jumps.depth
  unlabelled : ∀ block ∈ jumps.blocks.drop (jumps.depth - goto.depth),
    block.hasLabel goto.target = false

/-- A record of open blocks in which every `goto` waits where it could be waiting. -/
structure Coherent (jumps : Jumps) : Prop where
  nonempty : jumps.blocks ≠ []
  awaits : ∀ goto ∈ jumps.pending, jumps.Awaits goto

/-- Whether the innermost block of a record has a label. -/
def HasLabel (jumps : Jumps) (name : String) : Prop :=
  ∃ block outer, jumps.blocks = block :: outer ∧ block.hasLabel name = true

/-- What reading in the innermost block does to a record. The gotos that come to wait are among those
`found`, each told by its label and its token, and the `labels` come to stand in the block. -/
structure Grows (found : String → Token → Prop) (labels : List String) (jumps jumps' : Jumps) :
    Prop where
  coherent : jumps'.Coherent
  depth : jumps'.depth = jumps.depth
  outer : jumps'.blocks.drop 1 = jumps.blocks.drop 1
  tracks : jumps'.tracksLabels = jumps.tracksLabels
  pending : ∀ goto ∈ jumps'.pending,
    goto ∈ jumps.pending ∨ goto.depth = jumps.depth ∧ found goto.target goto.token
  labels : jumps.tracksLabels = true → ∀ name ∈ labels, jumps'.HasLabel name
  kept : ∀ name, jumps.HasLabel name → jumps'.HasLabel name

variable {jumps jumps' jumps'' : Jumps} {goto : PendingGoto} {found found' : String → Token → Prop}
  {labels labels' : List String} {name : String} {token : Token}

namespace Grows

/-- Coherent bookkeeping grows into itself. -/
theorem refl (h : jumps.Coherent) : Grows (fun _ _ => False) [] jumps jumps :=
  ⟨h, rfl, rfl, rfl, fun _ => .inl, fun _ => List.forall_mem_nil _, fun _ => id⟩

/-- What grows by less grows by more. -/
theorem mono (h : Grows found labels jumps jumps')
    (hfound : ∀ name token, found name token → found' name token) (hlabels : labels' ⊆ labels) :
    Grows found' labels' jumps jumps' :=
  ⟨h.coherent, h.depth, h.outer, h.tracks,
    fun goto hmem => (h.pending goto hmem).imp_right fun hgoto => ⟨hgoto.1, hfound _ _ hgoto.2⟩,
    fun htracks name hname => h.labels htracks name (hlabels hname), h.kept⟩

/-- Growth by one part and then by another is growth by both. -/
theorem trans (h : Grows found labels jumps jumps') (h' : Grows found' labels' jumps' jumps'') :
    Grows (fun name token => found name token ∨ found' name token) (labels ++ labels') jumps
      jumps'' where
  coherent := h'.coherent
  depth := h'.depth.trans h.depth
  outer := h'.outer.trans h.outer
  tracks := h'.tracks.trans h.tracks
  pending goto hmem := by
    rcases h'.pending goto hmem with hold | ⟨hdepth, hfound⟩
    · exact (h.pending goto hold).imp_right fun hgoto => ⟨hgoto.1, .inl hgoto.2⟩
    · exact .inr ⟨hdepth.trans h.depth, .inr hfound⟩
  labels htracks name hname := by
    rcases List.mem_append.mp hname with hname | hname
    · exact h'.kept name (h.labels htracks name hname)
    · exact h'.labels (h.tracks.trans htracks) name hname
  kept name hname := h'.kept name (h.kept name hname)

/-- A `goto` that waits in the innermost block is not for a label that was read there. -/
theorem not_mem_labels (h : Grows found labels jumps jumps') (hgoto : goto ∈ jumps'.pending)
    (hdepth : goto.depth = jumps'.depth) : goto.target ∉ labels := by
  intro hlabel
  have hawaits := h.coherent.awaits goto hgoto
  obtain ⟨block, outer, hblocks, hhas⟩ := h.labels (h.tracks ▸ hawaits.tracks) _ hlabel
  have hnot := hawaits.unlabelled block (by rw [hdepth, Nat.sub_self, hblocks]; exact List.mem_cons_self)
  rw [hhas] at hnot
  cases hnot

end Grows

/-! ## Opening blocks -/

/-- Bookkeeping stays coherent when a block is opened. -/
theorem Coherent.push (h : jumps.Coherent) (isLoop : Bool) : (jumps.push isLoop).Coherent where
  nonempty := List.cons_ne_nil _ _
  awaits goto hmem := by
    obtain ⟨htracks, hpos, hle, hunlabelled⟩ := h.awaits goto hmem
    refine ⟨htracks, hpos, Nat.le_succ_of_le hle, ?_⟩
    have hdrop : (jumps.push isLoop).depth - goto.depth = jumps.depth - goto.depth + 1 :=
      Nat.succ_sub hle
    rw [hdrop]
    exact hunlabelled

/-- The outermost block of a function. -/
theorem coherent_push_new (hpending : jumps.pending = []) (isLoop : Bool) :
    (jumps.push isLoop).Coherent where
  nonempty := List.cons_ne_nil _ _
  awaits goto hmem := by
    rw [show (jumps.push isLoop).pending = [] from hpending] at hmem
    cases hmem

/-! ## Reading in a block -/

/-- Another innermost block leaves a `goto` waiting if it still has not its label. -/
theorem Awaits.top {block block' : JumpBlock} {outer : List JumpBlock} (h : jumps.Awaits goto)
    (hblocks : jumps.blocks = block :: outer) (hblocks' : jumps'.blocks = block' :: outer)
    (htracks : jumps'.tracksLabels = jumps.tracksLabels)
    (hlabel : jumps.depth ≤ goto.depth → block.hasLabel goto.target = false →
      block'.hasLabel goto.target = false) : jumps'.Awaits goto := by
  have hdepth : jumps'.depth = jumps.depth := by rw [depth, depth, hblocks, hblocks']; rfl
  refine ⟨htracks.trans h.tracks, h.pos, hdepth ▸ h.le, ?_⟩
  have hunlabelled := h.unlabelled
  rw [hblocks] at hunlabelled
  rw [hblocks', hdepth]
  cases hcount : jumps.depth - goto.depth with
  | zero =>
    rw [hcount] at hunlabelled
    obtain ⟨hblock, houter⟩ := List.forall_mem_cons.mp hunlabelled
    exact List.forall_mem_cons.mpr ⟨hlabel (Nat.sub_eq_zero_iff_le.mp hcount) hblock, houter⟩
  | succ count =>
    rw [hcount] at hunlabelled
    exact hunlabelled

/-- A local adds no jump and no label. -/
theorem grows_addLocal (h : jumps.Coherent) (name : String) :
    Grows (fun _ _ => False) [] jumps (jumps.addLocal name) := by
  obtain ⟨tracks, checks, vararg, blocks, pending⟩ := jumps
  cases tracks with
  | false => exact .refl h
  | true =>
    cases blocks with
    | nil => exact absurd rfl h.nonempty
    | cons block outer =>
      refine ⟨⟨List.cons_ne_nil _ _, fun goto hmem => ?_⟩, rfl, rfl, rfl, fun _ => .inl,
        fun _ => List.forall_mem_nil _, ?_⟩
      · exact (h.awaits goto hmem).top rfl rfl rfl fun _ hlabel => hlabel
      · rintro name ⟨_, _, heq, hlabel⟩
        cases heq
        exact ⟨_, _, rfl, hlabel⟩

/-- A `goto` comes to wait unless an open block has its label. -/
theorem grows_addGoto (h : jumps.Coherent) (name : String) (token : Token) :
    Grows (fun name' token' => name' = name ∧ token' = token) [] jumps (jumps.addGoto name token) := by
  rw [addGoto]
  split
  · next hwaits =>
    obtain ⟨htracks, hunlabelled⟩ := Bool.and_eq_true_iff.mp hwaits
    rw [Bool.not_eq_true', List.any_eq_false] at hunlabelled
    refine ⟨⟨h.nonempty, fun goto hmem => ?_⟩, rfl, rfl, rfl, fun goto hmem => ?_,
      fun _ => List.forall_mem_nil _, fun _ => id⟩
    · rcases List.mem_append.mp hmem with hmem | hmem
      · obtain ⟨htracks, hpos, hle, hunlabelled⟩ := h.awaits goto hmem
        exact ⟨htracks, hpos, hle, hunlabelled⟩
      · obtain rfl := List.mem_singleton.mp hmem
        refine ⟨htracks, List.length_pos_of_ne_nil h.nonempty, Nat.le_refl _, fun block hblock => ?_⟩
        exact Bool.eq_false_iff.mpr (hunlabelled block (List.mem_of_mem_drop hblock))
    · refine (List.mem_append.mp hmem).imp_right fun hmem => ?_
      obtain rfl := List.mem_singleton.mp hmem
      exact ⟨rfl, rfl, rfl⟩
  · exact (Grows.refl h).mono (fun _ _ => False.elim) (List.Subset.refl _)

/-- A label comes to stand in the innermost block, and no `goto` waits for it there any longer. -/
theorem grows_addLabel (h : jumps.Coherent) (hadded : jumps.addLabel name token = .ok jumps') :
    Grows (fun _ _ => False) [name] jumps jumps' := by
  obtain ⟨tracks, checks, vararg, blocks, pending⟩ := jumps
  cases tracks with
  | false =>
    cases hadded
    exact ⟨h, rfl, rfl, rfl, fun _ => .inl, fun htracks => Bool.noConfusion htracks, fun _ => id⟩
  | true =>
    cases blocks with
    | nil => exact absurd rfl h.nonempty
    | cons block outer =>
      simp only [addLabel] at hadded
      split at hadded
      · cases hadded
      cases hadded
      refine ⟨⟨List.cons_ne_nil _ _, fun goto hmem => ?_⟩, rfl, rfl, rfl,
        fun goto hmem => .inl (List.mem_filter.mp hmem).1, fun _ => List.forall_mem_singleton.mpr ?_,
        ?_⟩
      · obtain ⟨hmem, hunsettled⟩ := List.mem_filter.mp hmem
        refine (h.awaits goto hmem).top rfl rfl rfl fun hge hlabel => ?_
        -- what waits in the innermost block waits for another label
        have hother : goto.target ≠ name := by
          rintro rfl
          rw [beq_self_eq_true, Bool.and_true, decide_eq_true hge] at hunsettled
          cases hunsettled
        rw [JumpBlock.hasLabel, List.any_cons, Bool.or_eq_false_iff]
        exact ⟨beq_false_of_ne hother.symm, hlabel⟩
      · exact ⟨_, _, rfl, by simp [JumpBlock.hasLabel]⟩
      · rintro name ⟨_, _, heq, hlabel⟩
        cases heq
        refine ⟨_, _, rfl, ?_⟩
        rw [JumpBlock.hasLabel, List.any_cons, Bool.or_eq_true]
        exact .inr hlabel

/-! ## Closing blocks -/

/-- Where a block is closed, what waits is what waited before and is left in an open block. -/
theorem pop_pending (h : jumps.pop = .ok jumps') : ∀ goto ∈ jumps'.pending,
    ∃ goto' ∈ jumps.pending, goto = goto'.leave jumps.depth ∧ 0 < goto.depth := by
  intro goto hmem
  obtain ⟨hleft, hpos⟩ : goto ∈ jumps.pending.map (·.leave jumps.depth) ∧ 0 < goto.depth := by
    simp only [pop] at h
    split at h
    · split at h
      · cases h
      · cases h
        obtain ⟨hleft, hpos⟩ := List.mem_filter.mp hmem
        exact ⟨hleft, of_decide_eq_true hpos⟩
    · next hfind =>
      cases h
      have hpos := List.find?_eq_none.mp hfind goto hmem
      rw [Bool.not_eq_true, Bool.not_eq_false', decide_eq_true_eq] at hpos
      exact ⟨hmem, hpos⟩
  obtain ⟨goto', hmem', rfl⟩ := List.mem_map.mp hleft
  exact ⟨goto', hmem', rfl, hpos⟩

/-- What waits in a block that closes comes to wait in the block around it. -/
theorem Awaits.leave (h : jumps.Awaits goto) {closed : Jumps}
    (hpos : 0 < (goto.leave jumps.depth).depth) (htracks : closed.tracksLabels = jumps.tracksLabels)
    (hblocks : closed.blocks = jumps.blocks.drop 1) : closed.Awaits (goto.leave jumps.depth) := by
  have hdepth : closed.depth = jumps.depth - 1 := by rw [depth, depth, hblocks, List.length_drop]
  have hle := h.le
  refine ⟨htracks.trans h.tracks, hpos, ?_, ?_⟩
  · rw [PendingGoto.depth_leave, hdepth]
    split <;> omega
  · rw [PendingGoto.target_leave, hblocks, List.drop_drop, PendingGoto.depth_leave, hdepth]
    intro block hmem
    split at hmem
    · refine h.unlabelled block ?_
      rw [show jumps.depth - goto.depth = 0 by omega]
      exact List.mem_of_mem_drop hmem
    · refine h.unlabelled block ?_
      rwa [show jumps.depth - goto.depth = 1 + (jumps.depth - 1 - goto.depth) by omega]

/-- What is found in a block that closes inside another is found in the other, unless the block has the
label for it. -/
theorem Grows.pop {isLoop : Bool} {inside : Jumps} (h : jumps.Coherent)
    (hinside : Grows found labels (jumps.push isLoop) inside) (hpop : inside.pop = .ok jumps') :
    Grows (fun name token => found name token ∧ name ∉ labels) [] jumps jumps' := by
  obtain ⟨htracks, -, -, hblocks⟩ := pop_keeps hpop
  replace hblocks : jumps'.blocks = jumps.blocks := hblocks.trans hinside.outer
  have hdepth : jumps'.depth = jumps.depth := congrArg List.length hblocks
  have hdeeper : inside.depth = jumps.depth + 1 := hinside.depth
  refine ⟨⟨hblocks ▸ h.nonempty, fun goto hmem => ?_⟩, hdepth, hblocks ▸ rfl,
    htracks.trans hinside.tracks, fun goto hmem => ?_, fun _ => List.forall_mem_nil _, ?_⟩
  · obtain ⟨goto, hgoto, rfl, hpos⟩ := pop_pending hpop goto hmem
    refine (hinside.coherent.awaits goto hgoto).leave hpos htracks ?_
    rw [hblocks, hinside.outer]
    rfl
  · obtain ⟨goto, hgoto, rfl, -⟩ := pop_pending hpop goto hmem
    rw [PendingGoto.depth_leave, PendingGoto.target_leave, PendingGoto.token_leave, hdeeper]
    rcases hinside.pending goto hgoto with hold | ⟨hat, hfound⟩
    · have hle := (h.awaits goto hold).le
      rw [PendingGoto.leave, if_neg (by omega)]
      exact .inl hold
    · have hat : goto.depth = jumps.depth + 1 := hat
      rw [if_pos (by omega)]
      exact .inr ⟨by omega, hfound, hinside.not_mem_labels hgoto (hat.trans hdeeper.symm)⟩
  · rintro name ⟨block, outer, hhas⟩
    exact ⟨block, outer, hblocks ▸ hhas⟩

/-- A block that closes inside another can be closed. -/
theorem pop_inside {isLoop : Bool} {inside : Jumps} (h : jumps.Coherent)
    (hinside : Grows found labels (jumps.push isLoop) inside) : ∃ jumps', inside.pop = .ok jumps' := by
  have hdeeper : inside.depth = jumps.depth + 1 := hinside.depth
  have hpos : 0 < jumps.depth := List.length_pos_of_ne_nil h.nonempty
  have hnone : (inside.pending.map (·.leave inside.depth)).find?
      (fun goto => !decide (0 < goto.depth)) = none := by
    refine List.find?_eq_none.mpr fun left hleft => ?_
    obtain ⟨goto, hmem, rfl⟩ := List.mem_map.mp hleft
    have := (hinside.coherent.awaits goto hmem).pos
    rw [PendingGoto.depth_leave, hdeeper, Bool.not_eq_true, Bool.not_eq_false', decide_eq_true_eq]
    split <;> omega
  simp only [Jumps.pop, hnone]
  exact ⟨_, rfl⟩

/-- What waits when the outermost block of a function closes was found in the block, which does not have
the label for it. -/
theorem Grows.pop_last {isLoop : Bool} (hpending : jumps.pending = [])
    (h : Grows found labels (jumps.push isLoop) jumps') {fault : JumpFault}
    (hpop : jumps'.pop = .error fault) : ∃ name, fault.message = .labelNotVisible ∧
      fault.arguments = [name] ∧ found name fault.token ∧ name ∉ labels := by
  simp only [Jumps.pop] at hpop
  split at hpop
  · next left hfind =>
    split at hpop
    · cases hpop
      obtain ⟨goto, hmem, rfl⟩ := List.mem_map.mp (List.mem_of_find?_eq_some hfind)
      rw [PendingGoto.target_leave, PendingGoto.token_leave]
      rcases h.pending goto hmem with hold | ⟨hdepth, hfound⟩
      · rw [show (jumps.push isLoop).pending = [] from hpending] at hold
        cases hold
      · exact ⟨_, rfl, rfl, hfound, h.not_mem_labels hmem (hdepth.trans h.depth.symm)⟩
    · cases hpop
  · cases hpop

end Jumps

end LuaSyntax
