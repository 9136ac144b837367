import LuaSyntax.Proofs.Grammar.Depth.Levels
import LuaSyntax.Proofs.Grammar.Bounds.Expression
import LuaSyntax.Proofs.Grammar.Lockstep.Statement

/-!
# Statements and chunks within ample bounds

Each rule for a statement does the same in both parses if the nested rules do. A statement takes a
token of its own where it has seen a keyword, a separator or a name.

All levels of the grammar do the same within ample bounds, by induction on the levels, and so does a
chunk. So a parse ends where its input does: it takes no more deliveries than the input holds, up to two
behind the tokens, of which the first is the end of the input; it succeeds only when all of them are
taken; what its feed would do behind them does not matter; and what would happen at a bound does not
matter either, since none is reached.
-/

namespace LuaSyntax.Grammar

open Rule

namespace Ample

variable {a : Ample} {s : State} {nested : Nested}

/-! ## Jumps -/

theorem labelStatement (start : Place) : a.At (labelStatement start) s :=
  .current (identifier.andThen fun _ _ => (At.expect _).andThen fun _ _ => .read (fun _ => rfl)
    ((At.checked _).andThen fun _ _ => (At.setJumps _).andThen fun _ _ => (At.placed _).andThen
      fun _ _ => .give _))

theorem gotoStatement (start : Place) : a.At (gotoStatement start) s :=
  .read (fun _ => rfl) (identifier.andThen fun _ _ => .read (fun _ => rfl)
    ((At.setJumps _).andThen fun _ _ => (At.placed _).andThen fun _ _ => .give _))

theorem breakStatement (start : Place) : a.At (breakStatement start) s :=
  .read (fun _ => rfl) (.ite (fun _ => (At.placed _).andThen fun _ _ => .give _)
    fun _ => .complain _)

section

variable (hn : a.Fit nested)

include hn

theorem returnStatement (start : Place) : a.At (returnStatement nested start) s :=
  .current (.ite (fun _ => (At.placed _).andThen fun _ _ => .give _)
    fun _ => (optionalList hn).andThen fun _ _ => At.consume.andThen fun _ _ =>
      (At.placed _).andThen fun _ _ => .give _)

/-! ## Conditions and loops -/

omit hn in
/-- An observer hears of a clause alike in both parses. -/
theorem clauseCompleted (clause : Clause) : a.At (clauseCompleted clause) s :=
  (At.complete _).andThen fun _ _ => .give _

theorem elseifClause : a.At (elseifClause nested) s :=
  At.mark.andThen fun _ _ => At.consume.andThen fun _ _ => .ite
    (fun _ => (expression hn).andThen fun _ _ => (At.expect _).andThen fun _ _ =>
      (scopedBlock hn false).andThen fun _ _ => (At.placed _).andThen fun _ _ =>
        (clauseCompleted _).andThen fun _ _ => .give _)
    fun _ => .give _

theorem elseClause : a.At (elseClause nested) s :=
  At.mark.andThen fun _ _ => At.consume.andThen fun _ _ => .ite
    (fun _ => (scopedBlock hn false).andThen fun _ _ => (At.placed _).andThen fun _ _ =>
      (clauseCompleted _).andThen fun _ _ => .give _)
    fun _ => .give _

theorem ifStatement (start : Place) : a.At (ifStatement nested start) s :=
  (expression hn).andThen fun _ _ => (At.expect _).andThen fun _ _ =>
    (scopedBlock hn false).andThen fun _ _ => (At.placed _).andThen fun _ _ =>
      (clauseCompleted _).andThen fun _ _ =>
        (At.many (fun _ => elseifClause hn) (Pairing.elseifClause_advances hn.advances)).andThen
          fun _ _ => (elseClause hn).andThen fun _ _ => (At.expect _).andThen fun _ _ =>
            (At.placed _).andThen fun _ _ => .give _

theorem whileStatement (start : Place) : a.At (whileStatement nested start) s :=
  (expression hn).andThen fun _ _ => (At.expect _).andThen fun _ _ =>
    (scopedBlock hn true).andThen fun _ _ => (At.expect _).andThen fun _ _ =>
      (At.placed _).andThen fun _ _ => .give _

theorem repeatStatement (start : Place) : a.At (repeatStatement nested start) s :=
  At.openScope.andThen fun _ _ => (At.openBlock true).andThen fun _ _ =>
    (statements hn).andThen fun _ _ => (At.expect _).andThen fun _ _ => At.goOn.andThen fun _ _ =>
      (expression hn).andThen fun _ _ => At.closeBlock.andThen fun _ _ =>
        At.closeScope.andThen fun _ _ => (At.placed _).andThen fun _ _ => .give _

theorem loopBody : a.At (loopBody nested) s :=
  (At.openBlock true).andThen fun _ _ => (statements hn).andThen fun _ _ =>
    At.closeBlock.andThen fun _ _ => (At.expect _).andThen fun _ _ => .give _

theorem numericFor (counter : Identifier) (start : Place) :
    a.At (numericFor nested counter start) s :=
  (expression hn).andThen fun _ _ => (At.expect _).andThen fun _ _ => (expression hn).andThen
    fun _ _ => (commaExpression hn).andThen fun _ _ => (At.expect _).andThen fun _ _ =>
      At.openScope.andThen fun _ _ => (At.declare _).andThen fun _ _ => (loopBody hn).andThen
        fun _ _ => At.closeScope.andThen fun _ _ => (At.placed _).andThen fun _ _ => .give _

omit hn in
theorem commaIdentifier : a.At commaIdentifier s :=
  At.consume.andThen fun _ _ => .ite (fun _ => identifier.andThen fun _ _ => .give _)
    fun _ => .give _

theorem genericFor (first : Identifier) (start : Place) : a.At (genericFor nested first start) s :=
  (At.many (fun _ => commaIdentifier) Pairing.commaIdentifier_advances).andThen fun _ _ =>
    (At.expect _).andThen fun _ _ => (expressionList hn).andThen fun _ _ =>
      (At.expect _).andThen fun _ _ => At.openScope.andThen fun _ s =>
        (At.declareAll _ s).andThen fun _ _ => (loopBody hn).andThen fun _ _ =>
          At.closeScope.andThen fun _ _ => (At.placed _).andThen fun _ _ => .give _

theorem forStatement (start : Place) : a.At (forStatement nested start) s :=
  identifier.andThen fun _ _ => At.consume.andThen fun _ _ =>
    .ite (fun _ => numericFor hn _ _) fun _ => genericFor hn _ _

/-! ## Declarations and assignments -/

omit hn in
theorem recordedDeclarator : a.At recordedDeclarator s :=
  declarator.andThen fun _ _ => (At.recordLocal _).andThen fun _ _ => .give _

omit hn in
theorem commaDeclarator : a.At commaDeclarator s :=
  At.consume.andThen fun _ _ => .ite (fun _ => recordedDeclarator.andThen fun _ _ => .give _)
    fun _ => .give _

omit hn in
/-- Variables are declared alike, one after another. -/
theorem declareVariables (names : List Declarator) : a.Throughout (declareVariables names) := by
  induction names with
  | nil => exact fun _ => .give []
  | cons name rest ih =>
    exact fun _ => (At.declare _).andThen fun _ s => (ih s).andThen fun _ _ => .give _

theorem localFunction (start : Place) : a.At (localFunction nested start) s :=
  identifier.andThen fun _ _ => (At.recordLocal _).andThen fun _ _ => (At.declare _).andThen
    fun _ _ => (functionBody hn _ _ _ _).andThen fun _ _ => .give _

theorem localVariables (start : Place) : a.At (localVariables nested start) s := by
  refine recordedDeclarator.andThen fun first _ => (At.many (fun _ => commaDeclarator)
    Pairing.commaDeclarator_advances).andThen fun others _ => At.consume.andThen fun _ _ => ?_
  have hrest (values : List Expression) : a.Throughout (do
      let names ← Grammar.declareVariables (first :: others)
      return Statement.localStatement names values (← Rule.placed start)) :=
    fun s => (declareVariables _ s).andThen fun _ _ => (At.placed _).andThen fun _ _ => .give _
  exact .ite (fun _ => (expressionList hn).andThen hrest) fun _ => (At.give _).andThen hrest

theorem localStatement (start : Place) : a.At (localStatement nested start) s :=
  At.consume.andThen fun _ _ => .ite (fun _ => localFunction hn _) fun _ => localVariables hn _

theorem target : a.At (target nested) s := by
  refine At.mark.andThen fun start _ => .current (.ite (fun _ => ?_) fun _ => ?_)
  · exact resolved.andThen fun _ _ => (suffixes hn start _).andThen fun _ _ => .give _
  · refine At.consume.andThen fun _ _ => .ite (fun _ => ?_) fun _ => .refuse
    exact (parenthesised hn).andThen fun _ _ => .current
      ((suffixes hn start _).andThen fun _ _ => .give _)

/-- A target is read behind a comma, where an expression may begin. -/
theorem targetTurn : a.At (targetTurn nested) s :=
  (target hn).andThen fun _ _ => .ite (fun _ => .refuse) fun _ => At.consume.andThen fun _ _ =>
    .ite (fun _ => .give _) fun _ => .give _

theorem assignedValues (targets : List Expression) (start : Place) :
    a.At (assignedValues nested targets start) s :=
  (At.expect _).andThen fun _ _ => (expressionList hn).andThen fun _ _ =>
    (At.placed _).andThen fun _ _ => .give _

theorem assignmentOrCall (start : Place) : a.At (assignmentOrCall nested start) s := by
  refine (target hn).andThen fun first _ => .at? (fun hend => ?_) ?_
  · refine .ite (fun _ => (At.placed _).andThen fun _ _ => .give _) fun _ => .ite (fun _ => .refuse)
      fun _ => ?_
    exact (At.advance hend).andThen fun _ _ => (At.repeated (fun _ => targetTurn hn)
      (Pairing.targetTurn_advances hn.advances)).andThen fun _ _ => assignedValues hn _ _
  · exact .ite (fun _ => (At.placed _).andThen fun _ _ => .give _) fun _ => .ite (fun _ => .refuse)
      fun _ => assignedValues hn _ _

end

theorem structureEntry : a.At structureEntry s := by
  refine .at? (fun _ => .give _) (At.mark.andThen fun _ _ => identifier.andThen fun _ _ =>
    (At.expect _).andThen fun _ _ => identifier.andThen fun _ _ => (At.placed _).andThen fun _ _ =>
      (At.complete _).andThen fun _ _ => At.consume.andThen fun _ _ => .ite (fun _ => ?_) fun _ => .give _)
  exact At.consume.andThen fun _ _ => .give _

theorem structureDeclaration (start : Place) : a.At (structureDeclaration start) s :=
  identifier.andThen fun _ _ => (At.many (fun _ => structureEntry)
    Pairing.structureEntry_advances).andThen fun _ _ => (At.expect _).andThen fun _ _ =>
      (At.placed _).andThen fun _ _ => .give _

/-! ## Statements -/

section

variable (hn : a.Fit nested)

include hn

/-- Whatever statement a keyword begins, its rule does the same in both parses. -/
theorem keywordStatement {start : Place} {word : ReservedWord} {rule : Rule Statement}
    (h : keywordStatement nested start word = some rule) : a.At rule s := by
  cases word <;> cases h
  case localWord => exact localStatement hn _
  case ifWord => exact ifStatement hn _
  case returnWord => exact returnStatement hn _
  case functionWord =>
    exact functionName.andThen fun _ _ => (functionBody hn _ _ _ _).andThen fun _ _ => .give _
  case whileWord => exact whileStatement hn _
  case forWord => exact forStatement hn _
  case repeatWord => exact repeatStatement hn _
  case breakWord => exact breakStatement _
  case doWord =>
    exact (scopedBlock hn false).andThen fun _ _ => (At.expect _).andThen fun _ _ =>
      (At.placed _).andThen fun _ _ => .give _
  case gotoWord => exact gotoStatement _
  case hstructureWord => exact structureDeclaration _

theorem properStatement (start : Place) : a.At (properStatement nested start) s := by
  refine .current ?_
  split
  · next word hword =>
    split
    · next rule hrule =>
      have hend : s.token.isEnd = false := isEnd_eq_false (by rw [hword]; exact nofun)
      exact (At.advance hend).andThen fun _ _ => keywordStatement hn hrule
    · exact assignmentOrCall hn _
  · have hlook : a.At atContextualGoto s := .read (fun _ => rfl) (.has (.give _))
    refine hlook.bind fun found s' hfound => ?_
    obtain ⟨hvalue, rfl⟩ := Prod.mk.inj hfound
    refine .ite (fun hgoto => ?_) fun _ => assignmentOrCall hn _
    have hend : s.token.value ≠ .endOfInput := fun h => by
      rw [hgoto, Except.ok.injEq] at hvalue
      simp [Token.name?, h] at hvalue
    exact (At.advance (isEnd_eq_false hend)).andThen fun _ _ => gotoStatement _

theorem statement : a.At (statement nested) s := by
  have hproper (start : Place) : a.Throughout (do
      Rule.goOn
      return some (← Grammar.properStatement nested start)) :=
    fun s => At.goOn.andThen fun _ _ => (properStatement hn start).andThen fun _ _ => .give _
  have hempty (start : Place) : a.Throughout (do
      if (← Rule.has .emptyStatement) && (← Rule.at? Symbol.semicolon) then
        Rule.advance
        return none
      else
        Rule.goOn
        return some (← Grammar.properStatement nested start)) := by
    refine fun s => .has (.at? (fun hend => ?_) ?_)
    · exact .ite (fun _ => (At.advance hend).andThen fun _ _ => .give _) fun _ => hproper start s
    · rw [Bool.and_false]
      exact hproper start s
  refine At.mark.andThen fun start s => .has (.at? (fun hend => ?_) ?_)
  · exact .ite (fun _ => (At.advance hend).andThen fun _ _ =>
      (labelStatement start).andThen fun _ _ => .give _) fun _ => hempty start s
  · rw [Bool.and_false]
    exact hempty start s

end

/-! ## Levels and chunks -/

/-- Nothing is read where nothing may be nested. -/
theorem fit_bottom : a.Fit .bottom where
  statement _ := .complain _
  expression _ _ := .complain _
  advances := advances_bottom

/-- Over rules that do the same in both parses, the rules that read one level more do so too. -/
theorem fit_deeper (hn : a.Fit nested) : a.Fit nested.deeper where
  statement s := by
    refine (statement hn).andThen fun found _ => ?_
    cases found with
    | none => exact .give _
    | some statement => exact (At.complete _).andThen fun _ _ => .give _
  expression level _ := operation hn level
  advances := advances_deeper hn.advances

/-- Every number of levels does the same in both parses. -/
theorem fit_levels (level : Nat) : a.Fit (levels level) := by
  induction level with
  | zero => exact fit_bottom
  | succ level ih => exact fit_deeper ih

/-- A chunk is read alike in both parses. -/
theorem chunkBody (limit : Nat) : a.At (chunkBody (levels limit)) s := by
  refine At.mark.andThen fun start _ => At.openScope.andThen fun _ _ =>
    (At.openBlock false).andThen fun _ _ => (statements (fit_levels limit)).andThen fun body _ =>
      At.closeBlock.andThen fun _ _ => At.closeScope.andThen fun scope _ => ?_
  have hwhole : a.Throughout (do
      let placement ← Rule.placed start
      let globals ← takeUnresolved
      let found := (← Rule.state).comments
      let comments := if (← Rule.context).options.collectComments then some found else none
      let chunk : Chunk := { body := .mk body scope, comments, globals, placement }
      Rule.complete (.chunk chunk)
      return chunk) := by
    refine fun s => (At.placed start).andThen fun _ _ => At.andThen (r := takeUnresolved) ?_ fun _ _ => ?_
    · exact .read (fun _ => rfl) ((At.modify ⟨fun _ => rfl, rfl, rfl, rfl, rfl⟩).andThen
        fun _ _ => .give _)
    · exact .read (fun _ => rfl) (.context rfl ((At.complete _).andThen fun _ _ => .give _))
  have hsettled : a.Throughout (do
      if body.isEmpty then Rule.modify fun state => { state with previous := state.token }
      let placement ← Rule.placed start
      let globals ← takeUnresolved
      let found := (← Rule.state).comments
      let comments := if (← Rule.context).options.collectComments then some found else none
      let chunk : Chunk := { body := .mk body scope, comments, globals, placement }
      Rule.complete (.chunk chunk)
      return chunk) := fun s => .ite
    (fun _ => (At.modify ⟨fun _ => rfl, rfl, rfl, rfl, rfl⟩).andThen fun _ => hwhole)
    fun _ => hwhole s
  exact .current (.ite (fun _ => At.refuse.andThen fun _ => hsettled) fun _ => hsettled _)

end Ample

/-- A chunk is complete only at the end of the input. -/
theorem isEnd_of_chunkBody {limit : Nat} {context : Context} {s s' : State} {value : Chunk}
    (h : chunkBody (levels limit) context s = (.ok value, s')) : s'.token.isEnd = true := by
  obtain ⟨start, s₁, -, h⟩ := bind_eq_ok.mp h
  obtain ⟨_, s₂, -, h⟩ := bind_eq_ok.mp h
  obtain ⟨_, s₃, -, h⟩ := bind_eq_ok.mp h
  obtain ⟨body, s₄, -, h⟩ := bind_eq_ok.mp h
  obtain ⟨_, s₅, -, h⟩ := bind_eq_ok.mp h
  obtain ⟨scope, s₆, -, h⟩ := bind_eq_ok.mp h
  obtain ⟨token, _, hcurrent, h⟩ := bind_eq_ok.mp h
  cases hcurrent
  cases hend : s₆.token.isEnd with
  | false =>
    rw [hend, Bool.not_false, if_pos rfl] at h
    obtain ⟨error, hrefuse⟩ : ∃ error, (refuse : Rule Unit) context s₆ = (.error error, s₆) :=
      fails_refuse context s₆
    rw [bind_of_error hrefuse] at h
    cases h
  | true =>
    rw [hend, Bool.not_true, if_neg Bool.false_ne_true] at h
    cases hempty : body.isEmpty <;> rw [hempty] at h <;> cases h <;> exact hend

/-! ## A parse ends -/

variable {feed feed' : Feed} {deliveries : List Delivery} {last later : Delivery}

/-- When the first two deliveries are in view, the end of the input comes with the last one. -/
theorem runsOut_of_end {first second : Delivery} {row : List Delivery}
    (hrow : deliveries ++ [last, later] = first :: second :: row)
    (hbefore : ∀ delivery ∈ deliveries, delivery.token.isEnd = false)
    (hlast : last.token.isEnd = true) : RunsOut first.token second.token row := by
  induction deliveries generalizing first second row with
  | nil =>
    cases hrow
    exact hlast
  | cons delivery deliveries ih =>
    rw [List.cons_append] at hrow
    obtain ⟨rfl, hothers⟩ := List.cons.inj hrow
    cases row with
    | nil =>
      have := congrArg List.length hothers
      simp at this
    | cons third row =>
      exact ⟨hbefore _ List.mem_cons_self,
        ih hothers fun delivery hmem => hbefore delivery (List.mem_cons_of_mem _ hmem)⟩

/-- A whole parse does the same with other bounds that are ample, whatever happens behind them, and from
another feed that gives the same; and it ends where its input does. -/
theorem chunk_within (options : ParseOptions) (source : Text) (limit : Nat) {turns turns' : Nat}
    (overrun overrun' : Token → ParseError) (hfeed : feed.Gives (deliveries ++ [last, later]))
    (hfeed' : feed'.Gives (deliveries ++ [last, later]))
    (hbefore : ∀ delivery ∈ deliveries, delivery.token.isEnd = false)
    (hlast : last.token.isEnd = true) (hturns : deliveries.length + 2 < turns)
    (hturns' : deliveries.length + 2 < turns') :
    let outcome :=
      Outcome.of (chunkOver (levels limit) ⟨options, source, turns, overrun⟩ (.initial options feed))
    outcome =
      .of (chunkOver (levels limit) ⟨options, source, turns', overrun'⟩ (.initial options feed')) ∧
      outcome.taken ≤ deliveries.length + 2 ∧
      (outcome.atEnd = true ↔ outcome.taken = deliveries.length + 2) ∧
      ∀ value, outcome.result = .ok value → outcome.atEnd = true := by
  have hlength : (deliveries ++ [last, later]).length = deliveries.length + 2 := List.length_append
  obtain ⟨first, second, row, hrow⟩ : ∃ first second row,
      deliveries ++ [last, later] = first :: second :: row := by
    match deliveries with
    | [] => exact ⟨_, _, _, rfl⟩
    | [delivery] => exact ⟨_, _, _, rfl⟩
    | delivery :: other :: row => exact ⟨_, _, _, rfl⟩
  have hruns := runsOut_of_end hrow hbefore hlast
  rw [hrow] at hfeed hfeed' hlength
  obtain ⟨rest₁, hfirst, rest₂, hsecond, hrest⟩ := hfeed
  obtain ⟨rest₁', hfirst', rest₂', hsecond', hrest'⟩ := hfeed'
  let a : Ample :=
    ⟨⟨options, source, turns, overrun⟩, turns', overrun', deliveries.length + 2, hturns, hturns'⟩
  let start := shift (shift (.initial options feed) first rest₁) second rest₂
  have hawaits : start.Awaits a.total rest₂' := by
    refine ⟨row, ?_, hrest, hrest', hruns⟩
    rw [List.length_cons, List.length_cons] at hlength
    show 2 + row.length = deliveries.length + 2
    omega
  have hchunk : chunkOver (levels limit) ⟨options, source, turns, overrun⟩ (.initial options feed) =
      chunkBody (levels limit) a.context start := by
    rw [chunkOver, bind_of_ok (advance_eq_ok.mpr ⟨first, rest₁, hfirst, rfl⟩),
      bind_of_ok (advance_eq_ok.mpr ⟨second, rest₂, hsecond, rfl⟩)]
  have hchunk' : chunkOver (levels limit) ⟨options, source, turns', overrun'⟩ (.initial options feed') =
      chunkBody (levels limit) a.other { start with feed := rest₂' } := by
    rw [chunkOver, bind_of_ok (advance_eq_ok.mpr ⟨first, rest₁', hfirst', rfl⟩),
      bind_of_ok (advance_eq_ok.mpr ⟨second, rest₂', hsecond', rfl⟩)]
    rfl
  obtain ⟨feed'', hother, hend⟩ := Ample.chunkBody limit rest₂' hawaits
  refine ⟨?_, ?_, ?_, ?_⟩
  · rw [hchunk, hchunk', hother]
    rfl
  · rw [hchunk]
    exact hend.taken_le
  · rw [hchunk]
    exact hend.isEnd_iff
  · rw [hchunk]
    exact fun value hvalue => isEnd_of_chunkBody (Prod.ext hvalue rfl)

/-- Rules for what is nested that fail as a repetition does when it has taken all turns. -/
def Nested.overrun : Nested where
  statement := Rule.overrun
  expression _ := Rule.overrun

/-- Rules that fail at once leave as much open as there was. -/
theorem restores_overrun : Nested.overrun.Restores :=
  ⟨.of_aloof .overrun, fun _ => .of_aloof .overrun⟩

/-- A parse ends, and it never reads past the end of its input. Let a feed give some tokens, the end
of the input behind them, and anything behind that. Then a parse takes at most two deliveries more
than there are tokens, and the token that it stands at is the end of the input exactly when it has
taken that many; so it takes none while it stands there. If it succeeds, it has taken that many. What
other feeds do behind these deliveries, failing included, does not matter, because they are not asked
for more. And nothing is cut off. With any bound on repetitions above that number of deliveries the
outcome is the same, whatever error a repetition fails with at its bound, so none goes on up to it; and
it is the same if, under any number of levels above the nesting limit, the rules at the bottom fail with
such an error too, so no recursion goes down to them. -/
theorem parse_stops_at_end (options : ParseOptions) (source : Text)
    (hfeed : feed.Gives (deliveries ++ [last, later]))
    (hbefore : ∀ delivery ∈ deliveries, delivery.token.isEnd = false)
    (hlast : last.token.isEnd = true) :
    let outcome := run options source feed
    outcome.taken ≤ deliveries.length + 2 ∧
    (outcome.atEnd = true ↔ outcome.taken = deliveries.length + 2) ∧
    (∀ value, outcome.result = .ok value →
      outcome.taken = deliveries.length + 2 ∧ outcome.atEnd = true) ∧
    (∀ other : Feed, other.Gives (deliveries ++ [last, later]) →
      run options source other = outcome) ∧
    (∀ turns overrun, deliveries.length + 2 < turns →
      .of (chunk nestingLimit ⟨options, source, turns, overrun⟩ (.initial options feed)) = outcome) ∧
    ∀ turns fuel overrun, deliveries.length + 2 < turns → nestingLimit < fuel →
      .of (chunkOver (.opened (some nestingLimit) .overrun fuel) ⟨options, source, turns, overrun⟩
        (.initial options feed)) = outcome := by
  have hturns : ∀ {feed : Feed}, feed.Gives (deliveries ++ [last, later]) →
      deliveries.length + 2 < feed.size + 3 := fun h => by
    have := h.length_le hbefore hlast
    omega
  have hwithin : ∀ {other : Feed} {turns : Nat} (overrun : Token → ParseError),
      other.Gives (deliveries ++ [last, later]) → deliveries.length + 2 < turns →
      run options source feed = .of (chunkOver (levels nestingLimit) ⟨options, source, turns, overrun⟩
        (.initial options other)) := fun overrun hother h =>
    (run_eq_levels options source feed).trans
      (chunk_within options source nestingLimit _ overrun hfeed hother hbefore hlast (hturns hfeed) h).1
  obtain ⟨-, htaken, hend, hresult⟩ := chunk_within options source nestingLimit
    (Context.ofFeed options source feed).overrun (Context.ofFeed options source feed).overrun hfeed hfeed
    hbefore hlast (hturns hfeed) (hturns hfeed)
  rw [← hwithin _ hfeed (hturns hfeed)] at htaken hend hresult
  refine ⟨htaken, hend, fun value hvalue => ?_, fun other hother => ?_, fun turns overrun h => ?_,
    fun turns fuel overrun h hfuel => ?_⟩
  · exact ⟨hend.mp (hresult value hvalue), hresult value hvalue⟩
  · exact (run_eq_levels ..).trans (hwithin _ hother (hturns hother)).symm
  · exact (of_chunk _ rfl _).trans (hwithin overrun hfeed h).symm
  · have hroom : HasRoom (some nestingLimit) fuel 0 nestingLimit := ⟨Nat.zero_add _, hfuel⟩
    have hmirrors := hroom.mirrors restores_overrun nofun
    exact (hmirrors.of_chunkOver (restores_opened restores_overrun _ fuel)).trans (hwithin overrun hfeed h).symm

/-- A lonely word and the end of the input: three deliveries are taken, also if the next would fail. -/
theorem parse_stops_at_end_return :
    let word : Delivery := ⟨⟨.keyword .returnWord, .start, ⟨6, 1, 0⟩, "return"⟩, []⟩
    let last : Delivery := ⟨.endOfInput ⟨6, 1, 0⟩, []⟩
    let outcome := run {} "return".toList ⟨[word], .ok last⟩
    outcome.taken = 3 ∧ outcome.atEnd = true ∧ ∀ error,
      run {} "return".toList ⟨[word, last, last], .error error⟩ = outcome := by
  intro word last outcome
  have hgives : Feed.Gives ⟨[word], .ok last⟩ ([word] ++ [last, last]) :=
    ⟨_, rfl, _, rfl, _, rfl, trivial⟩
  obtain ⟨-, -, hresult, hother, -, -⟩ := parse_stops_at_end {} "return".toList hgives
    (List.forall_mem_singleton.mpr rfl) rfl
  have haccepted : outcome.result.toOption.isSome = true := by decide +kernel
  cases hvalue : outcome.result with
  | error error =>
    rw [hvalue] at haccepted
    cases haccepted
  | ok value =>
    obtain ⟨htaken, hend⟩ := hresult value hvalue
    exact ⟨htaken, hend, fun error => hother _ ⟨_, rfl, _, rfl, _, rfl, trivial⟩⟩

end LuaSyntax.Grammar
