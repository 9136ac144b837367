import LuaSyntax.Grammar.Block
import LuaSyntax.Proofs.Grammar.Twins.Leaf

/-!
# Blocks and functions in twins

A record of jumps is handled alike whether gotos are checked or not, until the outermost block of a function
closes. A block inside another can be closed in both parses. Where only the second parse checks gotos, it
may not be able to close the outermost one, and then the function that the first parse gives is to blame.
-/

namespace LuaSyntax

/-! ## Records of jumps -/

namespace Jumps

variable {jumps jumps' : Jumps} {found : String → Token → Prop} {labels : List String}

/-- A local is added whether gotos are checked or not. -/
theorem addLocal_checks (jumps : Jumps) (checksTargets : Bool) (name : String) :
    Jumps.addLocal { jumps with checksTargets } name = { jumps.addLocal name with checksTargets } := by
  simp only [addLocal]
  split <;> rfl

/-- A `goto` is added whether gotos are checked or not. -/
theorem addGoto_checks (jumps : Jumps) (checksTargets : Bool) (name : String) (token : Token) :
    Jumps.addGoto { jumps with checksTargets } name token =
      { jumps.addGoto name token with checksTargets } := by
  simp only [addGoto]
  split <;> rfl

/-- A label is added whether gotos are checked or not. -/
theorem addLabel_checks (jumps : Jumps) (checksTargets : Bool) (name : String) (token : Token) :
    Jumps.addLabel { jumps with checksTargets } name token =
      (jumps.addLabel name token).map fun jumps => { jumps with checksTargets } := by
  simp only [addLabel]
  split
  · split <;> rfl
  · rfl

/-- A record whose innermost block can be closed has the same block closed if gotos are checked, or there
is one to blame. -/
theorem pop_checks (h : jumps.pop = .ok jumps') (checksTargets : Bool) :
    Jumps.pop { jumps with checksTargets } = .ok { jumps' with checksTargets } ∨
      (jumps.checksTargets = false ∧ checksTargets = true ∧
        ∃ fault, Jumps.pop { jumps with checksTargets } = .error fault) := by
  obtain ⟨tracks, checks, vararg, blocks, pending⟩ := jumps
  simp only [pop, depth] at h ⊢
  split at h
  · split at h
    · cases h
    · next hchecks =>
      cases h
      cases checksTargets with
      | false => exact .inl rfl
      | true => exact .inr ⟨Bool.eq_false_iff.mpr hchecks, rfl, _, rfl⟩
  · cases h
    exact .inl rfl

/-- A block is refused when it closes only if gotos are checked. -/
theorem checks_of_pop {fault : JumpFault} (h : jumps.pop = .error fault) : jumps.checksTargets = true := by
  simp only [pop] at h
  split at h
  · split at h
    · assumption
    · cases h
  · cases h

/-- Whether gotos are checked does not matter to what is found. -/
theorem Grows.checks (h : Grows found labels jumps jumps') (checksTargets : Bool) :
    Grows found labels jumps { jumps' with checksTargets } where
  coherent := ⟨h.coherent.nonempty, fun goto hmem =>
    have hawaits := h.coherent.awaits goto hmem
    ⟨hawaits.tracks, hawaits.pos, hawaits.le, hawaits.unlabelled⟩⟩
  depth := h.depth
  outer := h.outer
  tracks := h.tracks
  pending := h.pending
  labels := h.labels
  kept := h.kept

/-- To allow dots is to find nothing. -/
theorem grows_allow (h : jumps.Coherent) :
    Grows (fun _ _ => False) [] jumps { jumps with allowsVararg := true } :=
  ⟨⟨h.nonempty, fun goto hmem =>
    have hawaits := h.awaits goto hmem
    ⟨hawaits.tracks, hawaits.pos, hawaits.le, hawaits.unlabelled⟩⟩,
    rfl, rfl, rfl, fun _ => .inl, fun _ => List.forall_mem_nil _, fun _ => id⟩

end Jumps

namespace Grammar

open Rule

/-- A block closes if its record of jumps does. -/
theorem Rule.closeBlock_of_ok {context : Context} {s : State} {jumps : Jumps}
    (h : s.jumps.pop = .ok jumps) : closeBlock context s = (.ok (), { s with jumps }) := by
  show (checked s.jumps.pop >>= setJumps) context s = _
  rw [h]
  rfl

/-- A block is refused when it closes if its record of jumps is. -/
theorem Rule.closeBlock_of_error {context : Context} {s : State} {fault : JumpFault}
    (h : s.jumps.pop = .error fault) : closeBlock context s =
      (.error (errorAt context.source fault.token fault.message fault.arguments), s) := by
  show (checked s.jumps.pop >>= setJumps) context s = _
  rw [h]
  rfl

/-- To close a block takes back nothing that was told. -/
theorem Rule.lasting_closeBlock : closeBlock.Lasting := by
  refine .of_log fun context s => ?_
  cases h : s.jumps.pop with
  | ok jumps => rw [closeBlock_of_ok h]
  | error fault => rw [closeBlock_of_error h]

namespace Twins

variable {T : Twins} {α : Type} [Erasable α] {since : Jumps → Prop} {found inner : Findings}
  {post : α → State → Prop} {guilty : α → ParseError → Prop} {r r' : Rule α}

/-- Another record of jumps that differs in twins as the one before. -/
theorem Related.setJumps {s t : State} (h : T.Related s t) {jumps jumps' : Jumps}
    (hchecks : jumps.checksTargets = T.left.options.checkGotoLabels)
    (hjumps : jumps' = { jumps with checksTargets := T.right.options.checkGotoLabels }) :
    T.Related { s with jumps } { t with jumps := jumps' } :=
  ⟨h.feed, h.coming, h.previous, h.token, h.lookahead, h.comments, h.scope, hchecks, hjumps⟩

/-- A change to the record of jumps, for which it does not matter whether gotos are checked. -/
theorem finds_change (change : Jumps → Jumps) (what : Findings)
    (hchecks : ∀ jumps checksTargets, change { jumps with checksTargets } =
      { change jumps with checksTargets })
    (hgrows : ∀ jumps : Jumps, jumps.Coherent → Jumps.Grows what.gotos what.labels jumps (change jumps)) :
    T.Finds (fun _ => what) innocent (state >>= fun s => Rule.setJumps (change s.jumps))
      (state >>= fun s => Rule.setJumps (change s.jumps)) := by
  refine fun since found => ⟨.of_log fun _ _ => rfl, fun s t hst hs => ?_⟩
  have hsame : change s.jumps =
      { change s.jumps with checksTargets := s.jumps.checksTargets } := hchecks s.jumps _
  have hfound : State.Found (· = s.jumps) what { s with jumps := change s.jumps } :=
    ⟨s.jumps, rfl, hgrows s.jumps hs.coherent⟩
  refine .both rfl (hst.setJumps ?_ ?_) (hs.also hfound)
  · exact (congrArg Jumps.checksTargets hsame).trans hst.checks
  · rw [hst.jumps]
    exact hchecks s.jumps _

theorem stable_recordLocal (name : String) : T.Stable (recordLocal name) (recordLocal name) :=
  finds_change (·.addLocal name) .nothing (fun _ _ => Jumps.addLocal_checks _ _ _)
    fun _ hcoherent => Jumps.grows_addLocal hcoherent name

/-! ## Blocks -/

/-- The record of jumps in a block that was opened where something was found. -/
def opened (since : Jumps → Prop) (found : Findings) (isLoop : Bool) (origin : Jumps) : Prop :=
  ∃ first outer, since first ∧ Jumps.Grows found.gotos found.labels first outer ∧
    origin = outer.push isLoop

/-- Behind the opening of a block nothing was found in it yet. -/
theorem runs_openBlock (isLoop : Bool) : T.Runs (State.Found since found)
    (fun _ => State.Found (opened since found isLoop) .nothing) innocent (openBlock isLoop)
      (openBlock isLoop) := by
  refine ⟨.of_log fun _ _ => rfl, fun s t hst hs => ?_⟩
  obtain ⟨first, hfirst, hgrows⟩ := hs
  refine .both rfl (hst.setJumps hst.checks ?_) ?_
  · rw [hst.jumps]
    rfl
  · exact ⟨_, ⟨first, s.jumps, hfirst, hgrows, rfl⟩, .refl (hgrows.coherent.push isLoop)⟩

/-- A block inside another can be closed in twins. -/
theorem runs_closeBlock {isLoop : Bool} : T.Runs (State.Found (opened since found isLoop) inner)
    (fun _ => State.Found since (found.also inner.left)) innocent closeBlock closeBlock := by
  refine ⟨lasting_closeBlock, fun s t hst hs => ?_⟩
  obtain ⟨_, ⟨first, outer, hfirst, hgrows, rfl⟩, hinner⟩ := hs
  have hcoherent := hgrows.coherent
  obtain ⟨jumps, hpop⟩ := Jumps.pop_inside hcoherent hinner
  obtain ⟨jumps', hpop'⟩ := Jumps.pop_inside hcoherent (hinner.checks T.right.options.checkGotoLabels)
  have hsame := (Jumps.pop_checks hpop T.right.options.checkGotoLabels).resolve_right (by simp [hpop'])
  have ht : t.jumps.pop = .ok _ := hst.jumps ▸ hsame
  rw [closeBlock_of_ok hpop, closeBlock_of_ok ht]
  refine .both rfl (hst.setJumps ((Jumps.pop_keeps hpop).2.1.trans hst.checks) rfl) ?_
  exact ⟨first, hfirst, hgrows.trans (hinner.pop hcoherent hpop)⟩

/-! ## Functions -/

/-- The record of a function before anything in it is read. -/
def fresh (outer : Jumps) : Jumps :=
  { tracksLabels := outer.tracksLabels
    checksTargets := outer.checksTargets
    allowsVararg := false }

/-- The record of jumps in a function that was begun where something was found. -/
structure Entered (T : Twins) (since : Jumps → Prop) (found : Findings) (outer origin : Jumps) : Prop where
  origin_eq : origin = (fresh outer).push false
  checks : outer.checksTargets = T.left.options.checkGotoLabels
  before : ∃ first, since first ∧ Jumps.Grows found.gotos found.labels first outer

/-- A function has a record of its own. -/
theorem runs_enter {f g : Jumps → Rule α} (h : ∀ outer outer' : Jumps,
    outer' = { outer with checksTargets := T.right.options.checkGotoLabels } →
      T.Runs (State.Found (T.Entered since found outer) .nothing) post guilty (f outer) (g outer')) :
    T.Runs (State.Found since found) post guilty
      (state >>= fun s => setJumps (fresh s.jumps) >>= fun _ => openBlock false >>= fun _ => f s.jumps)
      (state >>= fun s => setJumps (fresh s.jumps) >>= fun _ => openBlock false >>= fun _ => g s.jumps) where
  lasting := .read fun s => .bind (.of_log fun _ _ => rfl) fun _ => .bind (.of_log fun _ _ => rfl)
    fun _ => (h s.jumps _ rfl).lasting
  meet s t hst hs := by
    have hinside := (h s.jumps t.jumps hst.jumps).meet { s with jumps := (fresh s.jumps).push false }
      { t with jumps := (fresh t.jumps).push false }
    refine hinside (hst.setJumps hst.checks ?_) ?_
    · rw [hst.jumps]
      rfl
    · exact ⟨_, ⟨rfl, hst.checks, hs⟩, .refl (Jumps.coherent_push_new rfl false)⟩

/-- The outermost block of a function or a chunk is closed. Where only the second parse fails, it blames a
`goto` that was found in the block and has no label there. -/
theorem runs_closeLast [T.Sound]
    (hsince : ∀ origin, since origin →
      ∃ (outer : Jumps) (isLoop : Bool), outer.pending = [] ∧ origin = outer.push isLoop)
    (h : T.Runs (fun _ => ∃ origin, since origin) post guilty r r')
    (hguilty : ∀ name token, inner.left.gotos name token → ∀ s v t, r T.left s = (.ok v, t) →
      guilty v (errorAt T.left.source token .labelNotVisible [name])) :
    T.Runs (State.Found since inner) post guilty (closeBlock >>= fun _ => r) (closeBlock >>= fun _ => r') where
  lasting := lasting_closeBlock.bind fun _ => h.lasting
  meet s t hst hs := by
    obtain ⟨origin, horigin, hinner⟩ := hs
    obtain ⟨outer, isLoop, hpending, rfl⟩ := hsince origin horigin
    cases hpop : s.jumps.pop with
    | error fault =>
      -- gotos are checked by both parses, so their records are the same
      have hsame : t.jumps = s.jumps := by
        rw [hst.jumps, Sound.checks (hst.checks ▸ Jumps.checks_of_pop hpop), ← Jumps.checks_of_pop hpop]
      rw [bind_of_error (closeBlock_of_error hpop), bind_of_error (closeBlock_of_error (hsame ▸ hpop)),
        Sound.source (T := T)]
      exact .failed
    | ok jumps =>
      have hchecks := (Jumps.pop_keeps hpop).2.1.trans hst.checks
      rw [bind_of_ok (closeBlock_of_ok hpop)]
      rcases Jumps.pop_checks hpop T.right.options.checkGotoLabels with hpop' | ⟨hl, hr, fault, hpop'⟩
      · rw [← hst.jumps] at hpop'
        rw [bind_of_ok (closeBlock_of_ok hpop')]
        exact h.meet _ _ (hst.setJumps hchecks rfl) ⟨_, horigin⟩
      · obtain ⟨name, hmessage, harguments, hgoto⟩ :=
          (hinner.checks T.right.options.checkGotoLabels).pop_last hpending hpop'
        rw [← hst.jumps] at hpop'
        rw [bind_of_error (closeBlock_of_error hpop'), hmessage, harguments, ← Sound.source (T := T)]
        exact .alone (hst.checks ▸ hl) hr fun v u hrun => .inl (hguilty name _ hgoto _ v u hrun)

/-- The record of a function is left. -/
theorem runs_leave [T.Sound] {outer outer' : Jumps}
    (houter : outer' = { outer with checksTargets := T.right.options.checkGotoLabels })
    (h : T.Runs (State.Found since found) post guilty r r')
    (hguilty : ∀ name token, inner.left.gotos name token → ∀ s v t, r T.left s = (.ok v, t) →
      guilty v (errorAt T.left.source token .labelNotVisible [name])) :
    T.Runs (State.Found (T.Entered since found outer) inner) post guilty
      (closeBlock >>= fun _ => setJumps outer >>= fun _ => r)
      (closeBlock >>= fun _ => setJumps outer' >>= fun _ => r') := by
  refine runs_closeLast (fun origin horigin => ⟨_, _, rfl, horigin.origin_eq⟩) ⟨?_, ?_⟩ ?_
  · exact .bind (.of_log fun _ _ => rfl) fun _ => h.lasting
  · rintro s t hst ⟨_, -, hchecks, hfound⟩
    exact h.meet _ _ (hst.setJumps hchecks houter) hfound
  · intro name token hgoto s v t hrun
    exact hguilty name token hgoto _ v t hrun

/-! ## Nested rules -/

/-- Rules for what is nested that come out alike in twins. -/
structure Fit (T : Twins) (nested nested' : Nested) : Prop where
  statement : T.Finds (fun v => .of T.left v.toList) innocent nested.statement nested'.statement
  expression : ∀ level, T.Stable (nested.expression level) (nested'.expression level)

variable [T.Sound] {nested nested' : Nested} (hn : T.Fit nested nested')

include hn

/-- A turn of a block finds what its statement holds. -/
theorem finds_blockTurn : T.Finds (fun v => .of T.left (v.items.filterMap id)) innocent
    (blockTurn nested) (blockTurn nested') := by
  have hitem (statement : Option Statement) : (Findings.of T.left statement.toList).Within
      (.of T.left ([statement].filterMap id)) := by cases statement <;> exact .refl _
  refine fun since found => .glance fun token => .ite (.give rfl fun s hs => hs.mono ?_) ?_
  · exact Findings.within_also_nothing.trans Findings.of_nil.also
  refine .has (by decide) fun relaxed => hn.statement.bind fun statement statement' hstatement => .ite (.ite ?_ ?_) ?_
  · refine (Stable.consumed _).before fun _ _ _ => .give (akin_last.mpr hstatement) fun _ hs => ?_
    exact hs.mono (hitem statement).also
  · exact .give (akin_last.mpr hstatement) fun _ hs => hs.mono (hitem statement).also
  · refine (Stable.consumed _).before fun _ _ _ => .give (akin_more.mpr hstatement) fun _ hs => ?_
    exact hs.mono (hitem statement).also

/-- The statements of a block find what they hold. -/
theorem finds_statements :
    T.Finds (.of T.left) innocent (statements nested) (statements nested') := by
  refine fun since found => Finds.bind (Finds.repeated (finds_blockTurn hn) ?_)
    fun items items' hitems => .give hitems.filterMap_id fun _ hs => hs
  intro item items
  have happend : (item :: items).filterMap id = [item].filterMap id ++ items.filterMap id :=
    List.filterMap_append (l := [item])
  rw [happend]
  exact Findings.of_append

/-- A block with a scope of its own finds what is inside of it. -/
theorem finds_scopedBlock (isLoop : Bool) : T.Finds (fun body => .inside T.left [body]) innocent
    (scopedBlock nested isLoop) (scopedBlock nested' isLoop) := by
  refine fun since found => stable_openScope.before fun _ _ _ => (runs_openBlock isLoop).bind fun _ _ _ => ?_
  refine (finds_statements hn).bind fun body body' hbody => ?_
  refine (runs_closeBlock.weaken fun _ hs => hs.mono Findings.nothing_also).bind fun _ _ _ => ?_
  refine stable_closeScope.before fun scope scope' hscope => .give (akin_block hbody hscope) fun _ hs => ?_
  exact hs.mono (Findings.left_of body scope).also

/-! ## Functions -/

omit hn

/-- A parameter is declared to what is akin. -/
theorem stable_declaredParameter {declarator declarator' : Declarator}
    (h : Akin T.erasure declarator declarator') :
    T.Stable (declaredParameter declarator) (declaredParameter declarator') := by
  cases declarator with
  | plain name =>
    cases declarator' with
    | plain name' =>
      exact (stable_declare (akin_plain.mp h)).bind fun _ _ hname => .give (congrArg Parameter.plain hname)
    | typed => cases h
  | typed typed =>
    cases declarator' with
    | plain => cases h
    | typed typed' =>
      have htyped := akin_typed.mp h
      exact (stable_declare htyped.typedName).bind fun _ _ hname =>
        .give (congrArg Parameter.typed (htyped.withName hname))

omit [T.Sound] in
theorem stable_allowVararg : T.Stable
    (modify fun state => { state with jumps := { state.jumps with allowsVararg := true } })
    (modify fun state => { state with jumps := { state.jumps with allowsVararg := true } }) :=
  finds_change (fun jumps => { jumps with allowsVararg := true }) .nothing (fun _ _ => rfl) fun _ h =>
    Jumps.grows_allow h

theorem stable_parameterTurn : T.Stable parameterTurn parameterTurn := by
  refine .current fun token => ?_
  split
  · refine stable_declarator.bind fun _ _ hname => (stable_declaredParameter hname).bind
      fun parameter parameter' hparameter => .consume (.give (akin_more.mpr hparameter)) ?_
    exact (Stable.expect _).bind fun _ _ _ => .give (akin_last.mpr hparameter)
  · exact stable_allowVararg.bind fun _ _ _ => stable_literal.bind fun _ _ hdots =>
      (Stable.expect _).bind fun _ _ _ => .give (akin_last.mpr (congrArg Parameter.vararg hdots))
  · exact .demand _

theorem stable_parameters : T.Stable parameters parameters :=
  (Stable.expect _).bind fun _ _ _ => .consume (.give rfl) (.repeated stable_parameterTurn)

/-- A function behind the beginning of its record. If only the second parse fails then the function that
the first gives is to blame. -/
theorem runs_functionRest (hn : T.Fit nested nested') {name name' : Option Expression}
    (hname : Akin T.erasure name name') (isLocal : Bool) (start : Place) (outer outer' : Jumps)
    (houter : outer' = { outer with checksTargets := T.right.options.checkGotoLabels }) :
    T.Runs (State.Found (T.Entered since found outer) .nothing) (fun _ => State.Found since found)
      (fun (function : Function) error => T.left.Blames error function.body)
      (do
        let parameters ← parameters
        let body ← statements nested
        closeBlock
        setJumps outer
        expect ReservedWord.endWord
        let scope ← closeScope
        return Function.mk name isLocal parameters (.mk body scope) (← placed start))
      (do
        let parameters ← parameters
        let body ← statements nested'
        closeBlock
        setJumps outer'
        expect ReservedWord.endWord
        let scope ← closeScope
        return Function.mk name' isLocal parameters (.mk body scope) (← placed start)) := by
  refine stable_parameters.before fun parameters parameters' hparameters => ?_
  refine (finds_statements hn).bind fun body body' hbody => ?_
  refine (runs_leave houter ?_ ?_).weaken fun _ hs => hs.mono Findings.nothing_also
  · refine (Stable.expect _).before fun _ _ _ => stable_closeScope.before fun scope scope' hscope => ?_
    refine (stable_placed start).before fun placement placement' hplacement => .give ?_ fun _ hs => hs
    exact akin_function hplacement hname hparameters (akin_block hbody hscope)
  · rintro name token hgoto s v t hrun
    obtain ⟨_, s₁, -, hrun⟩ := bind_eq_ok.mp hrun
    obtain ⟨scope, s₂, -, hrun⟩ := bind_eq_ok.mp hrun
    obtain ⟨placement, s₃, -, hrun⟩ := bind_eq_ok.mp hrun
    cases hrun
    exact Findings.blames_of_left hgoto

/-- What a function has found is lost when its body closes; the gotos left are to blame. -/
theorem runs_functionBody (hn : T.Fit nested nested') {name name' : Option Expression}
    (hname : Akin T.erasure name name') (isLocal isMethod : Bool) (start : Place) :
    T.Runs (State.Found since found) (fun _ => State.Found since found)
      (fun (function : Function) error => T.left.Blames error function.body)
      (functionBody nested name isLocal isMethod start) (functionBody nested' name' isLocal isMethod start) := by
  refine stable_openScope.before fun _ _ _ => (stable_declareName "self").branch fun _ => ?_
  exact runs_enter fun outer outer' houter =>
    runs_functionRest hn hname isLocal start outer outer' houter

/-- Names of functions that are akin are made longer to what is akin. -/
theorem stable_nameStep (start : Place) {base base' : Expression} (h : Akin T.erasure base base') :
    T.Stable (nameStep start base) (nameStep start base') :=
  .consume (stable_identifier.bind fun _ _ hname => (stable_member h .dot hname start).bind
    fun _ _ hmember => .give (akin_some.mpr hmember)) (.give rfl)

theorem stable_functionName : T.Stable functionName functionName := by
  refine .mark fun start => stable_resolved.bind fun name name' hname => ?_
  refine (Stable.iterated (fun _ _ h => stable_nameStep start h) (akin_nameExpression hname)).bind
    fun base base' hbase => .consume ?_ (.give (akin_mk.mpr ⟨hbase, rfl⟩))
  exact stable_identifier.bind fun _ _ hname => (stable_member hbase .colon hname start).bind
    fun _ _ hmember => .give (akin_mk.mpr ⟨hmember, rfl⟩)

end Twins

end Grammar

end LuaSyntax
