import LuaSyntax.Proofs.Jumps.History

/-!
# Indices in a record of jumps

Two operations of a record look up by index how many locals a block had when a goto was read, and closing a block counts
down the depth of gotos. A record answers such a look-up in any case, with nothing where there is nothing, and counts
down no further than zero. Here the same operations are written so that they have no result if an index is out of range
or a depth is counted down from zero, and they turn out to have one after any calls that may be made.

For that the rows that are linked by indices have to fit: the blocks that are open, the locals of each, and for each
goto the locals that it counted. `InRange` says that they do, with all indices counted from the outermost block.

`bookkeeping_kept` is the result. It also says what a jump into the scope of a local is blamed on: there was such a
goto, and behind it such a local was declared in the block that goes on.
-/

namespace LuaSyntax

/-! ## Looking up and counting down -/

/-- Takes a pending goto out of a block that closes, unless its depth would be counted down from zero. -/
def PendingGoto.leave? (goto : PendingGoto) (closing : Nat) : Option PendingGoto :=
  if closing ≤ goto.depth then
    if 0 < goto.depth then some { goto with depth := goto.depth - 1 } else none
  else some goto

/-- How many locals the block of a depth had when a goto was read, if there is a block of that depth and the goto
counted its locals. -/
def PendingGoto.localsAt? (goto : PendingGoto) (depth : Nat) : Option Nat :=
  if 0 < depth then goto.localCounts[depth - 1]? else none

namespace Jumps

/-- Sorts the gotos that are pending when a label is recorded in a block: those that go on to wait, and those of the
others that enter the scope of a local. -/
def settle? (name : String) (depth locals : Nat) : List PendingGoto → Option (List PendingGoto × List PendingGoto)
  | [] => some ([], [])
  | goto :: pending => do
    if depth ≤ goto.depth && goto.target == name then
      let count ← goto.localsAt? depth
      let (waiting, entering) ← settle? name depth locals pending
      pure (waiting, if count < locals then goto :: entering else entering)
    else
      let (waiting, entering) ← settle? name depth locals pending
      pure (goto :: waiting, entering)

/-- Closes the innermost block, with every depth that is counted down looked at before. -/
def pop? (jumps : Jumps) : Option (Except JumpFault Jumps) := do
  let pending ← jumps.pending.mapM (·.leave? jumps.depth)
  let open? (goto : PendingGoto) : Bool := 0 < goto.depth
  match pending.find? fun goto => !(open? goto) with
  | some goto =>
    if jumps.checksTargets then pure (.error ⟨.labelNotVisible, [goto.target], goto.token⟩)
    else pure (.ok { jumps with blocks := jumps.blocks.drop 1, pending := pending.filter open? })
  | none => pure (.ok { jumps with blocks := jumps.blocks.drop 1, pending })

/-- Records a label, with every index looked at before. -/
def addLabel? (jumps : Jumps) (name : String) (token : Token) : Option (Except JumpFault Jumps) :=
  match jumps.tracksLabels, jumps.blocks with
  | true, block :: outer =>
    match block.labels.find? fun (label, _) => label == name with
    | some (_, line) => pure (.error ⟨.labelAlreadyDefined, [name, toString line], token⟩)
    | none => do
      let (pending, entering) ← settle? name jumps.depth block.locals.length jumps.pending
      let block :=
        { block with
          labels := (name, token.start.line) :: block.labels
          deferred := block.deferred ++ entering }
      pure (.ok { jumps with blocks := block :: outer, pending })
  | _, _ => pure (.ok jumps)

/-- Looks for a jump that was put aside, with its index looked at before. -/
def checkDeferred? (jumps : Jumps) : Option (Except JumpFault Unit) :=
  match jumps.blocks with
  | [] => pure (.ok ())
  | block :: _ =>
    match block.deferred with
    | [] => pure (.ok ())
    | goto :: _ => do
      let index ← goto.localsAt? jumps.depth
      let entered := (block.locals[index]?).getD ""
      pure (.error ⟨.jumpIntoLocalScope, [goto.target, entered], goto.token⟩)

/-- The record that a call leaves, or the fault with which it fails, unless an index is out of range or a depth is
counted down from zero. -/
def step? (jumps : Jumps) : Call → Option (Except JumpFault Jumps)
  | .push isLoop => pure (.ok (jumps.push isLoop))
  | .pop => jumps.pop?
  | .addGoto target token => pure (.ok (jumps.addGoto target token))
  | .addLabel name token => jumps.addLabel? name token
  | .addLocal name => pure (.ok (jumps.addLocal name))
  | .checkDeferred => jumps.checkDeferred?.map fun result => result.map fun () => jumps

/-! ## Ranges -/

/-- The open block of an index, counted from the outermost. -/
def block? (jumps : Jumps) (index : Nat) : Option JumpBlock := jumps.blocks.reverse[index]?

/-- Whether the rows of a record that are linked by indices fit. -/
structure InRange (jumps : Jumps) : Prop where
  depth_pos : ∀ goto ∈ jumps.pending, 1 ≤ goto.depth
  depth_le : ∀ goto ∈ jumps.pending, goto.depth ≤ jumps.depth
  depth_le_counts : ∀ goto ∈ jumps.pending, goto.depth ≤ goto.localCounts.length
  /-- A goto that waits has counted no more locals of a block than there are now. -/
  pending : ∀ goto ∈ jumps.pending, ∀ index < goto.depth, ∃ block count, jumps.block? index = some block ∧
    goto.localCounts[index]? = some count ∧ count ≤ block.locals.length
  /-- A goto that was put aside in a block has counted fewer of its locals than there are now. -/
  deferred : ∀ index block, jumps.block? index = some block → ∀ goto ∈ block.deferred, ∃ count,
    goto.localCounts[index]? = some count ∧ count < block.locals.length

section

variable {pending : List PendingGoto} {calls : List Call} {blocks : List JumpBlock} {block : JumpBlock}
  {goto : PendingGoto} {index : Nat} {jumps : Jumps}

/-- What an open block tells, wherever it stands. -/
theorem Tells.block_tells (h : Tells pending calls blocks) (hblock : blocks.reverse[index]? = some block) :
    ∃ inside, BlockTells pending index inside block := by
  induction h with
  | outside => cases hblock
  | @block _ inside _ last outer _ hlast ih =>
    rw [List.reverse_cons] at hblock
    rcases Nat.lt_trichotomy index outer.length with hlt | rfl | hgt
    · rw [List.getElem?_append_left (by rwa [List.length_reverse])] at hblock
      exact ih hblock
    · rw [List.getElem?_append_right (by simp), List.length_reverse, Nat.sub_self] at hblock
      obtain rfl := Option.some.inj hblock
      exact ⟨inside, hlast⟩
    · rw [List.getElem?_eq_none (by simp; omega)] at hblock
      cases hblock

/-- A goto that waits has counted the locals of all blocks from the outermost to the one in which it waits. -/
theorem BlockTells.count_le {inside : List Call} (h : BlockTells pending index inside block) (hmem : goto ∈ pending)
    (hindex : index < goto.depth) :
    ∃ count, goto.localCounts[index]? = some count ∧ count ≤ block.locals.length := by
  rcases Nat.eq_or_lt_of_le hindex with hdepth | hdepth
  · exact (h.waits goto hmem hdepth.symm).count_le
  · exact ⟨_, h.counts goto hmem hdepth, Nat.le_refl _⟩

/-- Bookkeeping that follows a history has its jumps in range. -/
theorem Told.inRange (h : Told calls jumps) : jumps.InRange := by
  have hpending (goto : PendingGoto) (hmem : goto ∈ jumps.pending) (index : Nat) (hindex : index < goto.depth) :
      ∃ block count, jumps.block? index = some block ∧ goto.localCounts[index]? = some count ∧
        count ≤ block.locals.length := by
    have hlt : index < jumps.blocks.reverse.length := by
      rw [List.length_reverse]
      exact Nat.lt_of_lt_of_le hindex (h.depth goto hmem).2
    have hblock := List.getElem?_eq_getElem hlt
    obtain ⟨inside, htells⟩ := h.tells.block_tells hblock
    obtain ⟨count, hcount, hle⟩ := htells.count_le hmem hindex
    exact ⟨_, count, hblock, hcount, hle⟩
  refine ⟨fun goto hmem => (h.depth goto hmem).1, fun goto hmem => (h.depth goto hmem).2, ?_, hpending, ?_⟩
  · intro goto hmem
    have hpos := (h.depth goto hmem).1
    obtain ⟨_, _, -, hcount, -⟩ := hpending goto hmem (goto.depth - 1) (by omega)
    obtain ⟨hlt, -⟩ := List.getElem?_eq_some_iff.mp hcount
    omega
  · intro index block hblock goto hmem
    obtain ⟨inside, htells⟩ := h.tells.block_tells hblock
    exact (htells.deferred goto hmem).count_lt

/-! ## Nothing is out of range -/

/-- A jump in a block can leave it without an underflow. -/
theorem leave?_eq (hpos : 0 < goto.depth) (closing : Nat) : goto.leave? closing = some (goto.leave closing) := by
  unfold PendingGoto.leave? PendingGoto.leave
  rw [if_pos hpos]
  split <;> rfl

/-- A count that is there is found. -/
theorem localsAt?_eq {count depth : Nat} (hpos : 0 < depth) (hcount : goto.localCounts[depth - 1]? = some count) :
    goto.localsAt? depth = some (goto.localsAt depth) := by
  rw [PendingGoto.localsAt?, PendingGoto.localsAt, if_pos hpos, hcount]
  rfl

/-- Every depth can be counted down. -/
theorem mapM_leave? (hpos : ∀ goto ∈ pending, 0 < goto.depth) (closing : Nat) :
    pending.mapM (·.leave? closing) = some (pending.map (·.leave closing)) := by
  induction pending with
  | nil => rfl
  | cons goto pending ih =>
    obtain ⟨hgoto, hrest⟩ := List.forall_mem_cons.mp hpos
    rw [List.mapM_cons, leave?_eq hgoto, ih hrest]
    rfl

/-- A label finds what it looks for in every goto that it settles. -/
theorem settle?_eq {name : String} {depth locals : Nat}
    (hcounts : ∀ goto ∈ pending, depth ≤ goto.depth → goto.localsAt? depth = some (goto.localsAt depth)) :
    settle? name depth locals pending =
      some (pending.filter fun goto => !(decide (depth ≤ goto.depth) && goto.target == name),
        pending.filter fun goto =>
          (decide (depth ≤ goto.depth) && goto.target == name) && decide (goto.localsAt depth < locals)) := by
  induction pending with
  | nil => rfl
  | cons goto pending ih =>
    obtain ⟨hgoto, hrest⟩ := List.forall_mem_cons.mp hcounts
    rw [settle?, ih hrest]
    cases hsettled : decide (depth ≤ goto.depth) && goto.target == name with
    | true =>
      rw [if_pos rfl, hgoto (of_decide_eq_true (Bool.and_eq_true_iff.mp hsettled).1), List.filter_cons_of_neg
        (by rw [hsettled]; exact Bool.false_ne_true)]
      by_cases henters : goto.localsAt depth < locals
      · rw [List.filter_cons_of_pos (by rw [hsettled, decide_eq_true henters]; rfl)]
        simp only [Option.bind_eq_bind, Option.bind_some, Option.pure_def, if_pos henters]
      · rw [List.filter_cons_of_neg (by rw [decide_eq_false henters, Bool.and_false]; exact Bool.false_ne_true)]
        simp only [Option.bind_eq_bind, Option.bind_some, Option.pure_def, if_neg henters]
    | false =>
      rw [List.filter_cons_of_pos (by rw [hsettled]; rfl), List.filter_cons_of_neg
        (by rw [hsettled]; exact Bool.false_ne_true)]
      rfl

namespace InRange

variable {token : Token} {name : String}

/-- To close a block never steps out of range. -/
theorem pop?_eq (h : jumps.InRange) : jumps.pop? = some jumps.pop := by
  unfold Jumps.pop? Jumps.pop
  rw [mapM_leave? h.depth_pos, Option.bind_eq_bind, Option.bind_some]
  dsimp only
  cases (jumps.pending.map (·.leave jumps.depth)).find? fun goto => !decide (0 < goto.depth) with
  | none => rfl
  | some goto => cases jumps.checksTargets <;> rfl

/-- To define a label never steps out of range. -/
theorem addLabel?_eq (h : jumps.InRange) (name : String) (token : Token) :
    jumps.addLabel? name token = some (jumps.addLabel name token) := by
  unfold Jumps.addLabel? Jumps.addLabel
  cases jumps.tracksLabels with
  | false => rfl
  | true =>
    cases hblocks : jumps.blocks with
    | nil => rfl
    | cons block outer =>
      dsimp only
      cases block.labels.find? fun entry => entry.1 == name with
      | some => rfl
      | none =>
        have hdepth : 0 < jumps.depth := by
          rw [Jumps.depth, hblocks]
          exact Nat.succ_pos _
        have hcounts (goto : PendingGoto) (hmem : goto ∈ jumps.pending) (hle : jumps.depth ≤ goto.depth) :
            goto.localsAt? jumps.depth = some (goto.localsAt jumps.depth) := by
          obtain ⟨_, _, -, hcount, -⟩ := h.pending goto hmem (jumps.depth - 1) (by omega)
          exact localsAt?_eq hdepth hcount
        dsimp only
        rw [settle?_eq hcounts]
        rfl

/-- To check the jumps that wait never steps out of range. -/
theorem checkDeferred?_eq (h : jumps.InRange) : jumps.checkDeferred? = some jumps.checkDeferred := by
  unfold Jumps.checkDeferred? Jumps.checkDeferred
  cases hblocks : jumps.blocks with
  | nil => rfl
  | cons block outer =>
    dsimp only
    cases hdeferred : block.deferred with
    | nil => rfl
    | cons goto others =>
      have hdepth : jumps.depth = outer.length + 1 := congrArg List.length hblocks
      have hblock : jumps.block? outer.length = some block := by
        rw [Jumps.block?, hblocks, List.reverse_cons, List.getElem?_append_right (by simp)]
        simp
      have hmem : goto ∈ block.deferred := by
        rw [hdeferred]
        exact List.mem_cons_self
      obtain ⟨count, hcount, -⟩ := h.deferred _ _ hblock goto hmem
      dsimp only
      rw [hdepth, localsAt?_eq (Nat.succ_pos _) hcount]
      rfl

/-- If the rows of a record fit, every operation has a result, and it is that of the operation that looks at nothing. -/
theorem step?_eq (h : jumps.InRange) (call : Call) : jumps.step? call = some (jumps.step call) := by
  cases call with
  | push | addGoto | addLocal => rfl
  | pop => exact h.pop?_eq
  | addLabel name token => exact h.addLabel?_eq name token
  | checkDeferred =>
    rw [Jumps.step?, h.checkDeferred?_eq]
    rfl

end InRange

end

/-! ## Jumps into the scope of a local -/

/-- Whether the block in which some calls begin is innermost again behind them. -/
def Stays (calls : List Call) : Prop := ∃ names, Declares calls names

/-- Whether some calls record a goto in the block that is innermost behind them, or inside of it, then declare a local
in the block, and then record the label of the goto in it. -/
def JumpsOver (calls : List Call) (target : String) (token : Token) (name : String) : Prop :=
  ∃ before isLoop first between label behind,
    calls = before ++ .push isLoop :: (first ++ .addLocal name :: (between ++ .addLabel target label :: behind)) ∧
      Stays first ∧ Stays between ∧ Stays behind ∧ .addGoto target token ∈ first

section

variable {goto : PendingGoto} {index : Nat} {calls inside : List Call} {locals : List String} {jumps : Jumps}
  {fault : JumpFault}

/-- The local that follows those which a goto has counted was declared behind the goto. -/
theorem Crossed.exists_local (h : Crossed goto index inside locals) : ∃ name first between label behind,
    inside = first ++ .addLocal name :: (between ++ .addLabel goto.target label :: behind) ∧ Stays first ∧
      Stays between ∧ Stays behind ∧ .addGoto goto.target goto.token ∈ first ∧
      locals[goto.localsAt (index + 1)]? = some name := by
  obtain ⟨upto, label, behind, known, later, rfl, rfl, hcounted, hlt, hbehind⟩ := h
  obtain ⟨first, names, more, others, rfl, rfl, hfirst, hmore, hgoto, hcount⟩ := hcounted
  have hlocals : goto.localsAt (index + 1) = names.length := by
    rw [PendingGoto.localsAt, Nat.add_sub_cancel, hcount]
    rfl
  rw [hlocals] at hlt ⊢
  cases others with
  | nil =>
    rw [List.append_nil] at hlt
    exact absurd hlt (Nat.lt_irrefl _)
  | cons name rest =>
    obtain ⟨passed, between, rfl, hpassed, hbetween⟩ := hmore.split (List.nil_append (name :: rest)).symm
    refine ⟨name, first ++ passed, between, label, behind, by simp, ⟨_, hfirst.append hpassed⟩, ⟨_, hbetween⟩,
      ⟨_, hbehind⟩, List.mem_append_left _ hgoto, ?_⟩
    rw [List.append_assoc, List.getElem?_append_right (Nat.le_refl _), Nat.sub_self]
    rfl

/-- What is blamed for a jump into the scope of a local. -/
theorem Told.jumpsOver (h : Told calls jumps) (hcheck : jumps.checkDeferred = .error fault) :
    ∃ target token name, JumpsOver calls target token name ∧ fault = ⟨.jumpIntoLocalScope, [target, name], token⟩ := by
  have htells := h.tells
  unfold Jumps.checkDeferred at hcheck
  cases hblocks : jumps.blocks with
  | nil =>
    rw [hblocks] at hcheck
    cases hcheck
  | cons block outer =>
    have hdepth : jumps.depth = outer.length + 1 := congrArg List.length hblocks
    rw [hblocks] at hcheck htells
    rw [hdepth] at hcheck
    cases hdeferred : block.deferred with
    | nil =>
      simp only [hdeferred] at hcheck
      cases hcheck
    | cons goto others =>
      simp only [hdeferred] at hcheck
      obtain rfl := Except.error.inj hcheck
      cases htells with
      | @block before _ isLoop _ _ _ hblock =>
        have hmem : goto ∈ block.deferred := by
          rw [hdeferred]
          exact List.mem_cons_self
        obtain ⟨name, first, between, label, behind, rfl, hfirst, hbetween, hbehind, hgoto, hname⟩ :=
          (hblock.deferred goto hmem).exists_local
        refine ⟨goto.target, goto.token, name, ?_, ?_⟩
        · exact ⟨before, isLoop, first, between, label, behind, rfl, hfirst, hbetween, hbehind, hgoto⟩
        · rw [hname]
          rfl

/-- No other call than the one that looks for such a jump blames one. -/
theorem checkDeferred_of_fault {call : Call} (hstep : jumps.step call = .error fault)
    (hmessage : fault.message = .jumpIntoLocalScope) : jumps.checkDeferred = .error fault := by
  cases call with
  | push | addGoto | addLocal => cases hstep
  | pop =>
    unfold Jumps.step Jumps.pop at hstep
    dsimp only at hstep
    split at hstep
    · split at hstep
      · obtain rfl := Except.error.inj hstep
        cases hmessage
      · cases hstep
    · cases hstep
  | addLabel name token =>
    unfold Jumps.step Jumps.addLabel at hstep
    dsimp only at hstep
    split at hstep
    · split at hstep
      · obtain rfl := Except.error.inj hstep
        cases hmessage
      · cases hstep
    · cases hstep
  | checkDeferred =>
    unfold Jumps.step at hstep
    cases hcheck : jumps.checkDeferred with
    | ok =>
      rw [hcheck] at hstep
      cases hstep
    | error other =>
      rw [hcheck] at hstep
      obtain rfl := Except.error.inj hstep
      rfl

end

/-! ## Bookkeeping -/

/-- What a record keeps to behind some calls, and what it answers to one more. -/
structure Kept (calls : List Call) (jumps : Jumps) : Prop where
  inRange : jumps.InRange
  /-- No index is out of range, and no depth is counted down from zero. -/
  defined : ∀ call, jumps.Takes call → jumps.step? call = some (jumps.step call)
  /-- A jump into the scope of a local is blamed on a goto and a local that was declared behind it. -/
  entered : ∀ call fault, jumps.Takes call → jumps.step call = .error fault → fault.message = .jumpIntoLocalScope →
    ∃ target token name, JumpsOver calls target token name ∧ fault = ⟨.jumpIntoLocalScope, [target, name], token⟩
  /-- Where no block is open any more, no goto waits. -/
  settled : jumps.blocks = [] → jumps.pending = []

/-- Whatever calls are made, as long as a block is open when one is needed and none has failed. -/
theorem bookkeeping_kept {checksTargets allowsVararg : Bool} {calls : List Call} {jumps : Jumps}
    (h : Reaches (fresh checksTargets allowsVararg) calls jumps) : Kept calls jumps where
  inRange := h.told.inRange
  defined call _ := h.told.inRange.step?_eq call
  entered _ _ _ hstep hmessage := h.told.jumpsOver (checkDeferred_of_fault hstep hmessage)
  settled hblocks := by
    apply List.eq_nil_iff_forall_not_mem.mpr
    intro goto hmem
    obtain ⟨hpos, hle⟩ := h.told.depth goto hmem
    rw [hblocks] at hle
    exact absurd hpos (Nat.not_lt_of_le hle)

/-- A goto in a loop jumps forward over a local of the block around the loop, and the block goes on. -/
theorem bookkeeping_kept_loop : ∃ jumps,
    Reaches (fresh true true)
        [.push false, .push true, .addGoto "l" default, .pop, .addLocal "x", .addLabel "l" default] jumps ∧
      Kept [.push false, .push true, .addGoto "l" default, .pop, .addLocal "x", .addLabel "l" default] jumps ∧
      jumps.checkDeferred = .error ⟨.jumpIntoLocalScope, ["l", "x"], default⟩ := by
  have hblock := @Reaches.call (fresh true true) [] _ _ (.push false) .nothing trivial rfl
  have hloop := @Reaches.call _ [.push false] _ _ (.push true) hblock trivial rfl
  have hgoto := @Reaches.call _ [.push false, .push true] _ _ (.addGoto "l" default) hloop (List.cons_ne_nil _ _) rfl
  have hclosed := @Reaches.call _ _ _ _ .pop hgoto (List.cons_ne_nil _ _) rfl
  have hlocal := @Reaches.call _ _ _ _ (.addLocal "x") hclosed (List.cons_ne_nil _ _) rfl
  have hlabel := @Reaches.call _ _ _ _ (.addLabel "l" default) hlocal (List.cons_ne_nil _ _) rfl
  exact ⟨_, hlabel, bookkeeping_kept hlabel, rfl⟩

end Jumps

end LuaSyntax
