import LuaSyntax.Proofs.Grammar.Same

/-!
# Jumps up to places

The record of jumps keeps tokens and lines to blame later, and never looks at them before. So what
happens to it, and whether a jump is allowed, is the same for records that are the same up to
places.
-/

namespace LuaSyntax

/-- A pending `goto` without its place. -/
def PendingGoto.blur (goto : PendingGoto) : PendingGoto := { goto with token := goto.token.blur }

/-- A block without the places of its jumps. -/
def JumpBlock.blur (block : JumpBlock) : JumpBlock :=
  { block with
    labels := block.labels.map fun label => (label.1, Place.start.line)
    deferred := block.deferred.map PendingGoto.blur }

/-- A record of jumps without their places. -/
def Jumps.blur (jumps : Jumps) : Jumps :=
  { jumps with
    blocks := jumps.blocks.map JumpBlock.blur
    pending := jumps.pending.map PendingGoto.blur }

instance : Blurred Jumps := ⟨Jumps.blur⟩

/-- Two outcomes that both fail, or give the same. -/
def Agree {ε α : Type} [Blurred α] : Except ε α → Except ε α → Prop
  | .ok a, .ok b => Same a b
  | .error _, .error _ => True
  | _, _ => False

namespace Agree

variable {ε α : Type} [Blurred α] {x y z : Except ε α}

/-- Two outcomes agree in either order. -/
theorem symm (h : Agree x y) : Agree y x := by
  cases x <;> cases y
  · trivial
  · exact h
  · exact h
  · exact Same.symm h

/-- Outcomes that agree with the same outcome agree. -/
theorem trans (h : Agree x y) (h' : Agree y z) : Agree x z := by
  cases x <;> cases y <;> cases z
  · trivial
  · exact h'
  · trivial
  · exact h
  · exact h
  · exact h.elim
  · exact h'
  · exact Same.trans h h'

/-- An outcome that does not depend on places agrees for things that are the same. -/
theorem of_same {β : Type} [Blurred β] {f : β → Except ε α} (hf : ∀ b, Agree (f (blur b)) (f b))
    {a b : β} (h : Same a b) : Agree (f a) (f b) := by
  have hb := hf b
  rw [← show blur a = blur b from h] at hb
  exact (hf a).symm.trans hb

end Agree

/-- What is made of a thing without looking at places is the same for things that are the same. -/
theorem Same.of_blur {α β : Type} [Blurred α] [Blurred β] {f : β → α}
    (hf : ∀ b, Same (f (blur b)) (f b)) {a b : β} (h : Same a b) : Same (f a) (f b) := by
  have hb := hf b
  rw [← show blur a = blur b from h] at hb
  exact (hf a).symm.trans hb

/-- A token without its place has none to lose. -/
@[simp] theorem Token.blur_blur (token : Token) : token.blur.blur = token.blur := rfl

/-- A `goto` without its place has none to lose. -/
@[simp] theorem PendingGoto.blur_blur (goto : PendingGoto) : goto.blur.blur = goto.blur := rfl

/-- How deep a `goto` waits does not depend on its place. -/
@[simp] theorem PendingGoto.depth_blur (goto : PendingGoto) : goto.blur.depth = goto.depth := rfl

/-- A `goto` leaves a block wherever it stands. -/
@[simp] theorem PendingGoto.leave_blur (goto : PendingGoto) (closing : Nat) :
    goto.blur.leave closing = (goto.leave closing).blur := by
  unfold PendingGoto.leave
  rw [depth_blur]
  split <;> rfl

/-- To take the places of gotos away twice is to do it once. -/
@[simp] theorem PendingGoto.blur_comp_blur : PendingGoto.blur ∘ PendingGoto.blur = PendingGoto.blur :=
  rfl

/-- A block without places has none to lose. -/
@[simp] theorem JumpBlock.blur_blur (block : JumpBlock) : block.blur.blur = block.blur := by
  simp [JumpBlock.blur]

/-- To take the places of blocks away twice is to do it once. -/
@[simp] theorem JumpBlock.blur_comp_blur : JumpBlock.blur ∘ JumpBlock.blur = JumpBlock.blur :=
  funext JumpBlock.blur_blur

/-- Which labels a block has does not depend on their lines. -/
@[simp] theorem JumpBlock.hasLabel_blur (block : JumpBlock) (name : String) :
    block.blur.hasLabel name = block.hasLabel name := by
  simp [JumpBlock.hasLabel, JumpBlock.blur, List.any_map, Function.comp_def]

namespace Jumps

variable {jumps jumps' : Jumps}

/-- How many blocks are open does not depend on places. -/
@[simp] theorem depth_blur (jumps : Jumps) : jumps.blur.depth = jumps.depth := by
  simp [depth, blur]

/-- A block is opened alike up to places. -/
theorem same_push (h : Same jumps jumps') (isLoop : Bool) :
    Same (jumps.push isLoop) (jumps'.push isLoop) := by
  apply h.of_blur (f := (·.push isLoop))
  intro jumps
  simp [Same, Blurred.blur, push, blur]

/-- Whether a loop is open does not depend on places. -/
theorem isInLoop_eq (h : Same jumps jumps') : jumps.isInLoop = jumps'.isInLoop := by
  refine h.map_eq isInLoop fun jumps => ?_
  simp [isInLoop, Blurred.blur, blur, JumpBlock.blur, List.any_map, Function.comp_def]

/-- A local is added alike up to places. -/
theorem same_addLocal (h : Same jumps jumps') (name : String) :
    Same (jumps.addLocal name) (jumps'.addLocal name) := by
  apply h.of_blur (f := (·.addLocal name))
  rintro ⟨tracks, checks, vararg, blocks, pending⟩
  cases tracks <;> cases blocks <;>
    simp [Same, Blurred.blur, addLocal, blur, JumpBlock.blur]

/-- A `goto` is added alike up to places. -/
theorem same_addGoto (h : Same jumps jumps') (target : String) {token token' : Token}
    (ht : Same token token') :
    Same (jumps.addGoto target token) (jumps'.addGoto target token') := by
  apply (same_mk.mpr ⟨h, ht⟩).of_blur (f := fun both => both.1.addGoto target both.2)
  rintro ⟨jumps, token⟩
  have hlabels : (jumps.blur.blocks.any fun block => block.hasLabel target) =
      jumps.blocks.any fun block => block.hasLabel target := by
    simp [blur, List.any_map, Function.comp_def]
  have hcounts : jumps.blur.blocks.map (fun block => block.locals.length) =
      jumps.blocks.map fun block => block.locals.length := by
    simp [blur, JumpBlock.blur, Function.comp_def]
  show blur (addGoto jumps.blur target token.blur) = blur (addGoto jumps target token)
  have htracks : jumps.blur.tracksLabels = jumps.tracksLabels := rfl
  simp only [addGoto, hlabels, hcounts, htracks, depth_blur]
  split <;> simp [blur, PendingGoto.blur, Function.comp_def]

/-- A label is added alike up to places, or refused alike. -/
theorem agree_addLabel (h : Same jumps jumps') (name : String) {token token' : Token}
    (ht : Same token token') :
    Agree (jumps.addLabel name token) (jumps'.addLabel name token') := by
  apply Agree.of_same (f := fun both : Jumps × Token => both.1.addLabel name both.2) _
    (same_mk.mpr ⟨h, ht⟩)
  rintro ⟨⟨tracks, checks, vararg, blocks, pending⟩, token⟩
  show Agree (addLabel (Jumps.blur ⟨tracks, checks, vararg, blocks, pending⟩) name token.blur) _
  cases tracks with
  | false => simp [Agree, Same, Blurred.blur, addLabel, blur]
  | true =>
    cases blocks with
    | nil => simp [Agree, Same, Blurred.blur, addLabel, blur]
    | cons block outer =>
      have hfind : (block.blur.labels.find? fun label => label.1 == name) =
          (block.labels.find? fun label => label.1 == name).map fun label =>
            (label.1, Place.start.line) := by
        rw [JumpBlock.blur, List.find?_map]
        rfl
      simp only [addLabel, blur, List.map_cons, hfind]
      cases block.labels.find? fun label => label.1 == name with
      | some label => trivial
      | none =>
        simp [Agree, Same, Blurred.blur, blur, JumpBlock.blur, depth, List.filter_map,
          Function.comp_def, Token.blur]
        exact ⟨rfl, rfl⟩

/-- A block closes alike up to places, or is refused alike. -/
theorem agree_pop (h : Same jumps jumps') : Agree jumps.pop jumps'.pop := by
  apply Agree.of_same _ h
  intro jumps
  show Agree (pop jumps.blur) (pop jumps)
  have hpending : (jumps.blur.pending.map fun goto => goto.leave jumps.blur.depth) =
      (jumps.pending.map fun goto => goto.leave jumps.depth).map PendingGoto.blur := by
    rw [depth_blur]
    simp [blur, Function.comp_def]
  have hchecks : jumps.blur.checksTargets = jumps.checksTargets := rfl
  simp only [pop, hpending, hchecks]
  generalize (jumps.pending.map fun goto => goto.leave jumps.depth) = pending
  have hfind : ((pending.map PendingGoto.blur).find? fun goto => !decide (0 < goto.depth)) =
      (pending.find? fun goto => !decide (0 < goto.depth)).map PendingGoto.blur := by
    rw [List.find?_map]
    rfl
  rw [hfind]
  cases pending.find? fun goto => !decide (0 < goto.depth) with
  | none => simp [Agree, Same, Blurred.blur, blur]
  | some goto =>
    simp only [Option.map_some]
    split
    · trivial
    · simp [Agree, Same, Blurred.blur, blur, List.filter_map, Function.comp_def]
      rfl

/-- Gotos that jump into the scope of a local are refused alike up to places. -/
theorem agree_checkDeferred (h : Same jumps jumps') :
    Agree jumps.checkDeferred jumps'.checkDeferred := by
  apply Agree.of_same _ h
  rintro ⟨tracks, checks, vararg, blocks, pending⟩
  show Agree (checkDeferred (Jumps.blur ⟨tracks, checks, vararg, blocks, pending⟩)) _
  cases blocks with
  | nil => rfl
  | cons block blocks =>
    obtain ⟨isLoop, labels, locals, deferred⟩ := block
    cases deferred <;> trivial

end Jumps

end LuaSyntax
