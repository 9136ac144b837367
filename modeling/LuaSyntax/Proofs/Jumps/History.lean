import Mathlib.Data.List.Infix
import LuaSyntax.Jump
import LuaSyntax.Proofs.Jumps.Record

/-!
# Jumps as a history of calls

The parser calls the operations of a record in the order of a program. Here they are called in any order, blocks opened
and closed as somebody likes, with no more asked than that a block is open when one is needed and that nobody goes on
after a call that failed. What the record knows of a goto can then be told from the calls alone: the goto was recorded
in a block, or inside of it, when so many locals of the block had been declared.

Opening and closing a block go together like parentheses, and `Declares` are the calls that leave the block in which
they are made as the innermost one. `Tells` goes through the open blocks of a record and says of each what was called in it:

- its locals are those that were declared in it, in order;
- a goto that waits in it was recorded there, and had counted the locals before it;
- a goto that waits further inside has counted all locals of the block, for none is declared around an open block;
- a goto that was put aside had its label recorded when locals had been added to those it had counted.

Every operation keeps this, each for the calls with itself behind them, and so does a run (`Reaches.told`).
-/

namespace LuaSyntax.Jumps

/-- A call of an operation on a record. -/
inductive Call where
  | push (isLoop : Bool)
  | pop
  | addGoto (target : String) (token : Token)
  | addLabel (name : String) (token : Token)
  | addLocal (name : String)
  | checkDeferred

/-- The record that a call leaves, or the fault with which it fails. -/
def step (jumps : Jumps) : Call → Except JumpFault Jumps
  | .push isLoop => .ok (jumps.push isLoop)
  | .pop => jumps.pop
  | .addGoto target token => .ok (jumps.addGoto target token)
  | .addLabel name token => jumps.addLabel name token
  | .addLocal name => .ok (jumps.addLocal name)
  | .checkDeferred => jumps.checkDeferred.map fun () => jumps

/-- Whether a call may be made: all but those that open a block need one that is open. -/
def Takes (jumps : Jumps) : Call → Prop
  | .push _ => True
  | _ => jumps.blocks ≠ []

/-- A record of jumps and labels in which no block is open yet. -/
def fresh (checksTargets allowsVararg : Bool) : Jumps := { tracksLabels := true, checksTargets, allowsVararg }

/-- The records to which calls lead that may be made and do not fail. -/
inductive Reaches (start : Jumps) : List Call → Jumps → Prop where
  | nothing : Reaches start [] start
  | call {calls : List Call} {jumps next : Jumps} {call : Call} (h : Reaches start calls jumps)
      (htakes : jumps.Takes call) (hstep : jumps.step call = .ok next) : Reaches start (calls ++ [call]) next

/-! ## Histories -/

/-- Whether a call opens or closes a block. -/
def Call.Moves : Call → Prop
  | .push _ | .pop => True
  | _ => False

/-- The local that a call declares in the innermost block. -/
def Call.local? : Call → Option String
  | .addLocal name => some name
  | _ => none

/-- Calls behind which the block in which they begin is innermost again, and the locals that they declare in it. All
blocks that they open they close. -/
inductive Declares : List Call → List String → Prop where
  | nothing : Declares [] []
  | call {call : Call} {calls : List Call} {names : List String} (h : Declares calls names) (hcall : ¬ call.Moves) :
      Declares (calls ++ [call]) (names ++ call.local?.toList)
  | block {isLoop : Bool} {inside calls : List Call} {inner names : List String} (h : Declares calls names)
      (hinside : Declares inside inner) : Declares (calls ++ (.push isLoop :: inside ++ [.pop])) names

section

variable {calls more inside : List Call} {names others front rest : List String} {name : String}

/-- What one history declares and what the next does is declared by both together. -/
theorem Declares.append (h : Declares calls names) (hmore : Declares more others) :
    Declares (calls ++ more) (names ++ others) := by
  induction hmore with
  | nothing =>
    rw [List.append_nil, List.append_nil]
    exact h
  | call _ hcall ih =>
    rw [← List.append_assoc, ← List.append_assoc]
    exact ih.call hcall
  | block _ hinside ih =>
    rw [← List.append_assoc]
    exact ih.block hinside

/-- A local is declared by a call of its own, before which the locals before it are declared. -/
theorem Declares.split (h : Declares calls names) (hnames : names = front ++ name :: rest) :
    ∃ between behind, calls = between ++ .addLocal name :: behind ∧ Declares between front ∧ Declares behind rest := by
  induction h generalizing rest with
  | nothing => simp at hnames
  | @call call calls names h hcall ih =>
    cases hlocal : call.local? with
    | none =>
      rw [hlocal, Option.toList_none, List.append_nil] at hnames
      obtain ⟨between, behind, rfl, hbetween, hbehind⟩ := ih hnames
      have hlast := hbehind.call hcall
      rw [hlocal, Option.toList_none, List.append_nil] at hlast
      exact ⟨between, behind ++ [call], by simp, hbetween, hlast⟩
    | some last =>
      have heq : call = .addLocal last := by
        cases call with
        | addLocal => rw [Option.some.inj hlocal]
        | _ => cases hlocal
      rw [hlocal, Option.toList_some] at hnames
      -- the local is the one that is declared last, or one before it
      rcases List.eq_nil_or_concat' rest with rfl | ⟨fewer, other, rfl⟩
      · obtain ⟨rfl, hlast⟩ := List.append_inj' hnames rfl
        obtain rfl := List.singleton_injective hlast
        exact ⟨calls, [], by rw [heq], h, .nothing⟩
      · rw [← List.cons_append, ← List.append_assoc] at hnames
        obtain ⟨hfewer, hlast⟩ := List.append_inj' hnames rfl
        obtain rfl := List.singleton_injective hlast
        obtain ⟨between, behind, rfl, hbetween, hbehind⟩ := ih hfewer
        have hdeclared := hbehind.call hcall
        rw [hlocal, Option.toList_some] at hdeclared
        exact ⟨between, behind ++ [call], by simp, hbetween, hdeclared⟩
  | @block isLoop inside calls inner names _ hinside ih =>
    obtain ⟨between, behind, rfl, hbetween, hbehind⟩ := ih hnames
    exact ⟨between, behind ++ (.push isLoop :: inside ++ [.pop]), by simp, hbetween, hbehind.block hinside⟩

end

/-! ## Gotos in a block -/

/-- Whether the first of some calls in a block record a goto, there or further inside, which has counted the locals that
these declare. -/
def Counted (goto : PendingGoto) (index : Nat) (inside : List Call) (locals : List String) : Prop :=
  ∃ first names more others, inside = first ++ more ∧ locals = names ++ others ∧ Declares first names ∧
    Declares more others ∧ .addGoto goto.target goto.token ∈ first ∧ goto.localCounts[index]? = some names.length

/-- Whether some calls in a block record a goto, there or further inside, then declare locals and then record the label
of the goto. -/
def Crossed (goto : PendingGoto) (index : Nat) (inside : List Call) (locals : List String) : Prop :=
  ∃ upto label behind known later, inside = upto ++ .addLabel goto.target label :: behind ∧ locals = known ++ later ∧
    Counted goto index upto known ∧ goto.localsAt (index + 1) < known.length ∧ Declares behind later

/-- What a block tells of the calls in it, if its index is counted from the outermost. -/
structure BlockTells (pending : List PendingGoto) (index : Nat) (inside : List Call) (block : JumpBlock) : Prop where
  locals : Declares inside block.locals
  deferred : ∀ goto ∈ block.deferred, Crossed goto index inside block.locals
  waits : ∀ goto ∈ pending, goto.depth = index + 1 → Counted goto index inside block.locals
  counts : ∀ goto ∈ pending, index + 1 < goto.depth → goto.localCounts[index]? = some block.locals.length

/-- What the blocks that are open tell of the calls that led there, the innermost first. -/
inductive Tells (pending : List PendingGoto) : List Call → List JumpBlock → Prop where
  | outside {calls : List Call} : Tells pending calls []
  | block {calls inside : List Call} {isLoop : Bool} {block : JumpBlock} {outer : List JumpBlock}
      (houter : Tells pending calls outer) (h : BlockTells pending outer.length inside block) :
      Tells pending (calls ++ .push isLoop :: inside) (block :: outer)

section

variable {goto : PendingGoto} {pending fewer : List PendingGoto} {index : Nat} {calls inside more : List Call}
  {locals names : List String} {block : JumpBlock} {outer blocks : List JumpBlock}

/-- What a jump counted stays counted while locals are declared. -/
theorem Counted.append (h : Counted goto index inside locals) (hmore : Declares more names) :
    Counted goto index (inside ++ more) (locals ++ names) := by
  obtain ⟨first, known, later, others, rfl, rfl, hfirst, hlater, hgoto, hcount⟩ := h
  exact ⟨first, known, later ++ more, others ++ names, List.append_assoc .., List.append_assoc .., hfirst,
    hlater.append hmore, hgoto, hcount⟩

/-- What a jump counted is no more than the locals there are. -/
theorem Counted.count_le (h : Counted goto index inside locals) :
    ∃ count, goto.localCounts[index]? = some count ∧ count ≤ locals.length := by
  obtain ⟨_, known, _, others, _, rfl, _, _, _, hcount⟩ := h
  refine ⟨known.length, hcount, ?_⟩
  rw [List.length_append]
  exact Nat.le_add_right _ _

/-- What a jump crossed stays crossed while locals are declared. -/
theorem Crossed.append (h : Crossed goto index inside locals) (hmore : Declares more names) :
    Crossed goto index (inside ++ more) (locals ++ names) := by
  obtain ⟨upto, label, behind, known, later, rfl, rfl, hcounted, hlt, hbehind⟩ := h
  exact ⟨upto, label, behind ++ more, known, later ++ names, by simp, List.append_assoc .., hcounted, hlt,
    hbehind.append hmore⟩

/-- A jump that crosses a local counted fewer locals than there are. -/
theorem Crossed.count_lt (h : Crossed goto index inside locals) :
    ∃ count, goto.localCounts[index]? = some count ∧ count < locals.length := by
  obtain ⟨_, _, _, known, later, _, rfl, hcounted, hlt, _⟩ := h
  obtain ⟨count, hcount, -⟩ := hcounted.count_le
  have hlocals : goto.localsAt (index + 1) = count := by
    rw [PendingGoto.localsAt, Nat.add_sub_cancel, hcount]
    rfl
  refine ⟨count, hcount, ?_⟩
  rw [List.length_append]
  omega

/-- To leave a block changes no count. -/
theorem localCounts_leave (closing : Nat) : (goto.leave closing).localCounts = goto.localCounts := by
  unfold PendingGoto.leave
  split <;> rfl

/-- Gotos that wait may be dropped. -/
theorem Tells.mono (h : Tells pending calls blocks) (hfewer : ∀ goto ∈ fewer, goto ∈ pending) :
    Tells fewer calls blocks := by
  induction h with
  | outside => exact .outside
  | block _ h ih =>
    exact .block ih ⟨h.locals, h.deferred, fun goto hmem => h.waits goto (hfewer goto hmem), fun goto hmem =>
      h.counts goto (hfewer goto hmem)⟩

/-- More is called in the innermost block. -/
theorem BlockTells.grow (h : BlockTells pending index inside block) (hmore : Declares more names)
    (hdepth : ∀ goto ∈ pending, goto.depth ≤ index + 1) {grown : JumpBlock}
    (hlocals : grown.locals = block.locals ++ names) (hdeferred : grown.deferred = block.deferred) :
    BlockTells pending index (inside ++ more) grown where
  locals := by
    rw [hlocals]
    exact h.locals.append hmore
  deferred goto hmem := by
    rw [hdeferred] at hmem
    rw [hlocals]
    exact (h.deferred goto hmem).append hmore
  waits goto hmem hgoto := by
    rw [hlocals]
    exact (h.waits goto hmem hgoto).append hmore
  counts goto hmem hlt := by
    have hle := hdepth goto hmem
    omega

/-- More is called while a block is innermost. -/
theorem Tells.behind (h : Tells pending calls (block :: outer)) {grown : JumpBlock}
    (hgrown : ∀ inside, BlockTells pending outer.length inside block →
      BlockTells pending outer.length (inside ++ more) grown) :
    Tells pending (calls ++ more) (grown :: outer) := by
  cases h with
  | block houter h =>
    rw [List.append_assoc]
    exact houter.block (hgrown _ h)

/-- The locals of a block, in the row that counts them from the outermost block. -/
theorem getElem?_counts (h : (block :: outer) <:+ blocks) :
    (blocks.map fun block => block.locals.length).reverse[outer.length]? = some block.locals.length := by
  obtain ⟨inner, rfl⟩ := h
  simp

/-- A goto may come to wait in a block further inside, if it has counted the locals of all blocks around. -/
theorem Tells.await (h : Tells pending calls blocks) (hdepth : blocks.length < goto.depth)
    (hcounts : ∀ block outer, (block :: outer) <:+ blocks →
      goto.localCounts[outer.length]? = some block.locals.length) :
    Tells (pending ++ [goto]) calls blocks := by
  induction h with
  | outside => exact .outside
  | @block _ _ _ block outer _ h ih =>
    rw [List.length_cons] at hdepth
    have hbehind := ih (by omega) fun block' outer' hsuffix =>
      hcounts block' outer' (hsuffix.trans (List.suffix_cons ..))
    refine .block hbehind ⟨h.locals, h.deferred, ?_, ?_⟩
    · intro other hmem hother
      rcases List.mem_append.mp hmem with hmem | hmem
      · exact h.waits other hmem hother
      · rw [List.mem_singleton.mp hmem] at hother
        omega
    · intro other hmem hlt
      rcases List.mem_append.mp hmem with hmem | hmem
      · exact h.counts other hmem hlt
      · rw [List.mem_singleton.mp hmem]
        exact hcounts block outer (List.suffix_refl _)

/-- Where a block closes, gotos leave it for the block around, and for the blocks around that one nothing changes. -/
theorem Tells.leave {closing : Nat} (h : Tells pending calls blocks) (hclosing : blocks.length + 1 < closing) :
    Tells (pending.map (·.leave closing)) calls blocks := by
  induction h with
  | outside => exact .outside
  | @block _ _ _ block outer _ h ih =>
    rw [List.length_cons] at hclosing
    refine .block (ih (by omega)) ⟨h.locals, h.deferred, ?_, ?_⟩
    · intro left hmem hleft
      obtain ⟨goto, hgoto, rfl⟩ := List.mem_map.mp hmem
      rw [PendingGoto.depth_leave] at hleft
      have hstays : ¬ closing ≤ goto.depth := by
        intro hle
        rw [if_pos hle] at hleft
        omega
      rw [if_neg hstays] at hleft
      rw [PendingGoto.leave, if_neg hstays]
      exact h.waits goto hgoto hleft
    · intro left hmem hlt
      obtain ⟨goto, hgoto, rfl⟩ := List.mem_map.mp hmem
      rw [PendingGoto.depth_leave] at hlt
      rw [localCounts_leave]
      apply h.counts goto hgoto
      split at hlt <;> omega

/-- Where a block closes, its gotos wait in the block around it, which had all its locals before them. -/
theorem Tells.close (h : Tells pending calls (block :: outer))
    (hdepth : ∀ goto ∈ pending, goto.depth ≤ outer.length + 1) :
    Tells (pending.map (·.leave (outer.length + 1))) (calls ++ [.pop]) outer := by
  cases h with
  | @block _ inside isLoop _ _ houter hblock =>
    cases houter with
    | outside => exact .outside
    | @block calls around _ block' outer' houter' hblock' =>
      have hinside : Declares (.push isLoop :: inside ++ [.pop]) [] := Declares.nothing.block hblock.locals
      rw [List.append_assoc, List.append_assoc]
      refine .block (houter'.leave (Nat.lt_succ_self _)) ⟨hblock'.locals.block hblock.locals, ?_, ?_, ?_⟩
      · intro goto hmem
        have hgoto := (hblock'.deferred goto hmem).append hinside
        rwa [List.append_nil] at hgoto
      · intro left hmem hleft
        obtain ⟨goto, hgoto, rfl⟩ := List.mem_map.mp hmem
        have hle := hdepth goto hgoto
        rw [List.length_cons] at hle hleft ⊢
        by_cases hcloses : outer'.length + 1 + 1 ≤ goto.depth
        · -- it was recorded within the calls from the opening of the block to its end
          obtain ⟨first, _, more, _, rfl, _, _, _, hfirst, _⟩ := hblock.waits goto hgoto (Nat.le_antisymm hle hcloses)
          rw [PendingGoto.leave, if_pos hcloses]
          exact ⟨_, _, [], [], (List.append_nil _).symm, (List.append_nil _).symm, hblock'.locals.block hblock.locals,
            .nothing, by simp [hfirst], hblock'.counts goto hgoto hcloses⟩
        · rw [PendingGoto.leave, if_neg hcloses] at hleft ⊢
          have hcounted := (hblock'.waits goto hgoto hleft).append hinside
          rwa [List.append_nil] at hcounted
      · intro left hmem hlt
        obtain ⟨goto, hgoto, rfl⟩ := List.mem_map.mp hmem
        have hle := hdepth goto hgoto
        rw [PendingGoto.depth_leave] at hlt
        rw [List.length_cons] at hle hlt
        split at hlt <;> omega

end

/-! ## Operations -/

/-- What a record tells of the calls that led to it. -/
structure Told (calls : List Call) (jumps : Jumps) : Prop where
  tracks : jumps.tracksLabels = true
  depth : ∀ goto ∈ jumps.pending, 0 < goto.depth ∧ goto.depth ≤ jumps.blocks.length
  tells : Tells jumps.pending calls jumps.blocks

section

variable {calls : List Call} {jumps next : Jumps} {name : String} {token : Token}

/-- A history goes on when a block is opened. -/
theorem Told.push (h : Told calls jumps) (isLoop : Bool) : Told (calls ++ [.push isLoop]) (jumps.push isLoop) where
  tracks := h.tracks
  depth goto hmem := ⟨(h.depth goto hmem).1, Nat.le_succ_of_le (h.depth goto hmem).2⟩
  tells := by
    refine .block h.tells ⟨.nothing, List.forall_mem_nil _, ?_, ?_⟩
    · intro goto hmem hgoto
      have hle := (h.depth goto hmem).2
      omega
    · intro goto hmem hlt
      have hle := (h.depth goto hmem).2
      omega

/-- A history goes on when a local is declared. -/
theorem Told.addLocal (h : Told calls jumps) (hopen : jumps.blocks ≠ []) (name : String) :
    Told (calls ++ [.addLocal name]) (jumps.addLocal name) := by
  obtain ⟨tracks, checks, vararg, blocks, pending⟩ := jumps
  obtain ⟨rfl, hdepth, htells⟩ := h
  obtain ⟨block, outer, rfl⟩ := List.exists_cons_of_ne_nil hopen
  have hcall : Declares [.addLocal name] [name] := Declares.nothing.call id
  refine ⟨rfl, hdepth, htells.behind fun inside hblock => ?_⟩
  exact hblock.grow hcall (fun goto hmem => (hdepth goto hmem).2) rfl rfl

/-- A history goes on when the jumps that wait are checked. -/
theorem Told.checkDeferred (h : Told calls jumps) (hopen : jumps.blocks ≠ []) :
    Told (calls ++ [.checkDeferred]) jumps := by
  obtain ⟨tracks, checks, vararg, blocks, pending⟩ := jumps
  obtain ⟨rfl, hdepth, htells⟩ := h
  obtain ⟨block, outer, rfl⟩ := List.exists_cons_of_ne_nil hopen
  have hcall : Declares [.checkDeferred] [] := Declares.nothing.call id
  refine ⟨rfl, hdepth, htells.behind fun inside hblock => ?_⟩
  exact hblock.grow hcall (fun goto hmem => (hdepth goto hmem).2) (List.append_nil _).symm rfl

/-- A history goes on when a jump is met. -/
theorem Told.addGoto (h : Told calls jumps) (hopen : jumps.blocks ≠ []) (target : String) (token : Token) :
    Told (calls ++ [.addGoto target token]) (jumps.addGoto target token) := by
  obtain ⟨tracks, checks, vararg, blocks, pending⟩ := jumps
  obtain ⟨rfl, hdepth, htells⟩ := h
  obtain ⟨block, outer, rfl⟩ := List.exists_cons_of_ne_nil hopen
  have hcall : Declares [.addGoto target token] [] := Declares.nothing.call id
  have hgrow (inside : List Call) (hblock : BlockTells pending outer.length inside block) :
      BlockTells pending outer.length (inside ++ [.addGoto target token]) block :=
    hblock.grow hcall (fun goto hmem => (hdepth goto hmem).2) (List.append_nil _).symm rfl
  unfold Jumps.addGoto
  split
  · -- the goto waits in the innermost block
    refine ⟨rfl, ?_, ?_⟩
    · intro goto hmem
      rcases List.mem_append.mp hmem with hmem | hmem
      · exact hdepth goto hmem
      · rw [List.mem_singleton.mp hmem]
        exact ⟨Nat.succ_pos _, Nat.le_refl _⟩
    · cases htells with
      | @block calls inside isLoop _ _ houter hblock =>
        rw [List.append_assoc]
        have hgrown := hgrow inside hblock
        refine .block (houter.await (Nat.lt_succ_self _) ?_) ⟨hgrown.locals, hgrown.deferred, ?_, ?_⟩
        · intro block' outer' hsuffix
          exact getElem?_counts (hsuffix.trans (List.suffix_cons block outer))
        · intro goto hmem hgoto
          rcases List.mem_append.mp hmem with hmem | hmem
          · exact hgrown.waits goto hmem hgoto
          · rw [List.mem_singleton.mp hmem]
            exact ⟨_, _, [], [], (List.append_nil _).symm, (List.append_nil _).symm, hgrown.locals, .nothing,
              List.mem_append_right _ (List.mem_singleton_self _), getElem?_counts (List.suffix_refl _)⟩
        · intro goto hmem hlt
          rcases List.mem_append.mp hmem with hmem | hmem
          · exact hgrown.counts goto hmem hlt
          · rw [List.mem_singleton.mp hmem] at hlt
            exact absurd hlt (Nat.lt_irrefl _)
  · exact ⟨rfl, hdepth, htells.behind hgrow⟩

/-- A label takes over the gotos that wait for it in its block, and keeps those that have counted fewer locals. -/
theorem Told.addLabel (h : Told calls jumps) (hopen : jumps.blocks ≠ [])
    (hnext : jumps.addLabel name token = .ok next) : Told (calls ++ [.addLabel name token]) next := by
  obtain ⟨tracks, checks, vararg, blocks, pending⟩ := jumps
  obtain ⟨rfl, hdepth, htells⟩ := h
  obtain ⟨block, outer, rfl⟩ := List.exists_cons_of_ne_nil hopen
  unfold Jumps.addLabel at hnext
  dsimp only at hnext
  split at hnext
  · cases hnext
  · obtain rfl := Except.ok.inj hnext
    refine ⟨rfl, fun goto hmem => hdepth goto (List.mem_of_mem_filter hmem), ?_⟩
    refine (htells.behind fun inside hblock => ?_).mono fun goto hmem => List.mem_of_mem_filter hmem
    have hcall : Declares [.addLabel name token] [] := Declares.nothing.call id
    have hgrown := hblock.grow hcall (fun goto hmem => (hdepth goto hmem).2) (List.append_nil _).symm rfl
    refine ⟨hgrown.locals, ?_, hgrown.waits, hgrown.counts⟩
    intro goto hmem
    rcases List.mem_append.mp hmem with hmem | hmem
    · exact hgrown.deferred goto hmem
    · obtain ⟨hwaiting, hsettled⟩ := List.mem_filter.mp hmem
      rw [Bool.and_eq_true, Bool.and_eq_true, decide_eq_true_eq, decide_eq_true_eq, beq_iff_eq] at hsettled
      obtain ⟨⟨hle, rfl⟩, hlt⟩ := hsettled
      have hlast : goto.depth = outer.length + 1 := Nat.le_antisymm (hdepth goto hwaiting).2 hle
      exact ⟨inside, token, [], block.locals, [], rfl, (List.append_nil _).symm, hblock.waits goto hwaiting hlast, hlt,
        .nothing⟩

/-- A record without its innermost block: what still waits, waits further out. -/
theorem pop_eq_ok (hnext : jumps.pop = .ok next) :
    next.tracksLabels = jumps.tracksLabels ∧ next.blocks = jumps.blocks.drop 1 ∧
      ∀ goto ∈ next.pending, goto ∈ jumps.pending.map (·.leave jumps.depth) ∧ 0 < goto.depth := by
  unfold Jumps.pop at hnext
  dsimp only at hnext
  split at hnext
  · split at hnext
    · cases hnext
    · obtain rfl := Except.ok.inj hnext
      refine ⟨rfl, rfl, fun goto hmem => ?_⟩
      obtain ⟨hleft, hdepth⟩ := List.mem_filter.mp hmem
      exact ⟨hleft, of_decide_eq_true hdepth⟩
  · next hnone =>
    obtain rfl := Except.ok.inj hnext
    refine ⟨rfl, rfl, fun goto hmem => ⟨hmem, ?_⟩⟩
    have hdepth := List.find?_eq_none.mp hnone goto hmem
    rwa [Bool.not_eq_true, Bool.not_eq_false', decide_eq_true_eq] at hdepth

/-- A history goes on when a block is closed. -/
theorem Told.pop (h : Told calls jumps) (hopen : jumps.blocks ≠ []) (hnext : jumps.pop = .ok next) :
    Told (calls ++ [.pop]) next := by
  obtain ⟨htracks, hblocks, hpending⟩ := pop_eq_ok hnext
  obtain ⟨block, outer, heq⟩ := List.exists_cons_of_ne_nil hopen
  have hdepth (goto : PendingGoto) (hmem : goto ∈ jumps.pending) : goto.depth ≤ outer.length + 1 := by
    have hle := (h.depth goto hmem).2
    rwa [heq] at hle
  have hlength : jumps.depth = outer.length + 1 := congrArg List.length heq
  have htells := h.tells
  rw [heq] at htells hblocks
  rw [hlength] at hpending
  refine ⟨htracks.trans h.tracks, ?_, ?_⟩
  · intro left hmem
    obtain ⟨hleft, hpos⟩ := hpending left hmem
    obtain ⟨goto, hgoto, rfl⟩ := List.mem_map.mp hleft
    refine ⟨hpos, ?_⟩
    have hle := hdepth goto hgoto
    rw [hblocks, List.drop_one, List.tail_cons, PendingGoto.depth_leave]
    split <;> omega
  · rw [hblocks]
    exact (htells.close hdepth).mono fun goto hmem => (hpending goto hmem).1

/-- A call that may be made and does not fail is told by the record that it leaves. -/
theorem Told.step {call : Call} (h : Told calls jumps) (htakes : jumps.Takes call)
    (hstep : jumps.step call = .ok next) : Told (calls ++ [call]) next := by
  cases call with
  | push isLoop =>
    obtain rfl := Except.ok.inj hstep
    exact h.push isLoop
  | pop => exact h.pop htakes hstep
  | addGoto target token =>
    obtain rfl := Except.ok.inj hstep
    exact h.addGoto htakes target token
  | addLabel name token => exact h.addLabel htakes hstep
  | addLocal name =>
    obtain rfl := Except.ok.inj hstep
    exact h.addLocal htakes name
  | checkDeferred =>
    unfold Jumps.step at hstep
    cases hcheck : jumps.checkDeferred with
    | ok =>
      rw [hcheck] at hstep
      obtain rfl := Except.ok.inj hstep
      exact h.checkDeferred htakes
    | error fault =>
      rw [hcheck] at hstep
      cases hstep

end

/-- Along all calls that may be made, from the first up to one that fails, a record tells of them. -/
theorem Reaches.told {checksTargets allowsVararg : Bool} {calls : List Call} {jumps : Jumps}
    (h : Reaches (fresh checksTargets allowsVararg) calls jumps) : Told calls jumps := by
  induction h with
  | nothing => exact ⟨rfl, List.forall_mem_nil _, .outside⟩
  | call _ htakes hstep ih => exact ih.step htakes hstep

end LuaSyntax.Jumps
