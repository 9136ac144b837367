import LuaSyntax.Proofs.Grammar.Lockstep.Statement
import LuaSyntax.Proofs.Grammar.Told.Rule

/-!
# Bounds that are never reached

A repetition fails behind a number of turns, and a feed is finite data. Neither is part of the
grammar, so neither may be seen in what a parse does. `Ample` puts two parses beside each other that
have different bounds, fail differently behind them, and have different feeds: the feeds give the same
tokens up to the end of the input, and the bounds are larger than the number of tokens. `Ample.At` says
that a rule does the same in both, down to the log, and that no more than these tokens are taken.

What is preserved is that the end of the input stands where no token may be taken any more, and not
before. A rule takes only tokens that it has seen not to be the end, so it is never at a loss; and
every turn of a repetition takes one, so the bounds are never reached.
-/

namespace LuaSyntax

/-- A feed that gives some deliveries, whatever comes behind them. -/
def Feed.Gives (feed : Feed) : List Delivery → Prop
  | [] => True
  | delivery :: row => ∃ rest : Feed, feed.next = .ok (delivery, rest) ∧ rest.Gives row

variable {feed : Feed} {deliveries : List Delivery} {last later : Delivery}

/-- Behind its end a feed gives the same token as often as it is asked. -/
theorem Feed.Gives.token_eq {ending : Except ParseError Delivery} {first : Delivery}
    {row : List Delivery} (h : Feed.Gives ⟨[], ending⟩ (first :: row)) :
    ∀ delivery ∈ row, delivery.token = first.token := by
  obtain ⟨rest, hnext, hrest⟩ := h
  cases ending with
  | error error => cases hnext
  | ok last =>
    cases hnext
    intro delivery hmem
    induction row with
    | nil => cases hmem
    | cons second row ih =>
      obtain ⟨rest, hnext, hrest⟩ := hrest
      cases hnext
      rcases List.mem_cons.mp hmem with rfl | hmem
      · rfl
      · exact ih hrest hmem

/-- What is given before the end of the input is held by the feed. -/
theorem Feed.Gives.length_le (h : feed.Gives (deliveries ++ [last, later]))
    (hbefore : ∀ delivery ∈ deliveries, delivery.token.isEnd = false)
    (hlast : last.token.isEnd = true) : deliveries.length ≤ feed.size := by
  induction deliveries generalizing feed with
  | nil => exact Nat.zero_le _
  | cons delivery deliveries ih =>
    obtain ⟨held, ending⟩ := feed
    cases held with
    | nil =>
      have hsame := Feed.Gives.token_eq h last (by simp)
      have hfalse := hbefore delivery List.mem_cons_self
      rw [← hsame, hlast] at hfalse
      cases hfalse
    | cons first held =>
      obtain ⟨rest, hnext, hrest⟩ := h
      cases hnext
      exact Nat.succ_le_succ
        (ih hrest fun delivery hmem => hbefore delivery (List.mem_cons_of_mem _ hmem))

namespace Grammar

/-- Where a parse stands at the token `token` and sees the token `lookahead`, the end of the input
comes with the last of the deliveries that it may take still. -/
def RunsOut (token lookahead : Token) : List Delivery → Prop
  | [] => token.isEnd = true
  | delivery :: row => token.isEnd = false ∧ RunsOut lookahead delivery.token row

/-- A parse that takes so many deliveries at most, and another feed that would do as well. -/
def State.Awaits (total : Nat) (s : State) (feed : Feed) : Prop :=
  ∃ row : List Delivery, s.taken + row.length = total ∧ s.feed.Gives row ∧ feed.Gives row ∧
    RunsOut s.token s.lookahead row

/-- No more is taken than may be. -/
theorem State.Awaits.taken_le {total : Nat} {s : State} {feed : Feed} (h : s.Awaits total feed) :
    s.taken ≤ total := by
  obtain ⟨row, htotal, -⟩ := h
  omega

/-- The end of the input is in view exactly if all was taken that may be taken. -/
theorem State.Awaits.isEnd_iff {total : Nat} {s : State} {feed : Feed} (h : s.Awaits total feed) :
    s.token.isEnd = true ↔ s.taken = total := by
  obtain ⟨row, htotal, -, -, hrow⟩ := h
  cases row with
  | nil => exact ⟨fun _ => htotal, fun _ => hrow⟩
  | cons delivery row =>
    have hne : s.taken ≠ total := by
      rw [List.length_cons] at htotal
      omega
    simp only [hrow.1, Bool.false_eq_true, hne]

/-- The first of two parses of the same tokens, the bound of the other and what happens behind it, and
how many deliveries either may take. -/
structure Ample where
  context : Context
  turns : Nat
  overrun : Token → ParseError
  total : Nat
  lt_left : total < context.turns
  lt_right : total < turns

open Rule

namespace Ample

variable {a : Ample} {α β : Type} {s : State} {feed : Feed}

/-- What the other parse is given. -/
def other (a : Ample) : Context := { a.context with turns := a.turns, overrun := a.overrun }

/-- How a rule comes out in the other parse, if it comes out so in the first. -/
def Matches (a : Ample) (outcome other : Except ParseError α × State) : Prop :=
  ∃ feed, other = (outcome.1, { outcome.2 with feed }) ∧ outcome.2.Awaits a.total feed

/-- A rule does the same in both parses from a state on. -/
def At (a : Ample) (r : Rule α) (s : State) : Prop :=
  ∀ feed, s.Awaits a.total feed → a.Matches (r a.context s) (r a.other { s with feed })

/-- A rule does the same in both parses, wherever they stand. -/
def Throughout (a : Ample) (r : Rule α) : Prop := ∀ s, a.At r s

/-- Rules that come out alike, and what comes behind them. -/
theorem Matches.bind {r r' : Rule α} {f f' : α → Rule β} {t : State}
    (h : a.Matches (r a.context s) (r' a.other t))
    (hf : ∀ v s', r a.context s = (.ok v, s') → ∀ feed, s'.Awaits a.total feed →
      a.Matches (f v a.context s') (f' v a.other { s' with feed })) :
    a.Matches ((r >>= f) a.context s) ((r' >>= f') a.other t) := by
  obtain ⟨feed, hother, hs⟩ := h
  match hrun : r a.context s with
  | (.ok v, s') =>
    rw [hrun] at hother hs
    rw [bind_of_ok hrun, bind_of_ok hother]
    exact hf v s' hrun feed hs
  | (.error error, s') =>
    rw [hrun] at hother hs
    rw [bind_of_error hrun, bind_of_error hother]
    exact ⟨feed, rfl, hs⟩

namespace At

variable {r q : Rule α} {f : α → Rule β}

/-- What reads nothing does the same in both parses. -/
theorem give (v : α) : a.At (pure v) s := fun feed hs => ⟨feed, rfl, hs⟩

/-- One rule and then another do the same in both parses if each does. -/
theorem bind (h : a.At r s) (hf : ∀ v s', r a.context s = (.ok v, s') → a.At (f v) s') :
    a.At (r >>= f) s := fun feed hs => (h feed hs).bind hf

/-- One rule and then another that does the same wherever it stands. -/
theorem andThen (h : a.At r s) (hf : ∀ v, a.Throughout (f v)) : a.At (r >>= f) s :=
  h.bind fun v s' _ => hf v s'

/-- The choice between two rules is made alike in both parses. -/
theorem ite {c : Bool} (ht : c = true → a.At r s) (hf : c = false → a.At q s) :
    a.At (if c = true then r else q) s := by
  cases c
  · exact hf rfl
  · exact ht rfl

/-! ## What a rule looks at -/

/-- Rules do not look at the feed. -/
theorem read {f : State → Rule β} (hfeed : ∀ feed, f { s with feed } = f s) (h : a.At (f s) s) :
    a.At (Rule.state >>= f) s := by
  intro feed hs
  show a.Matches _ (f { s with feed } a.other { s with feed })
  rw [hfeed]
  exact h feed hs

/-- The token that a rule stands at is the same in both parses. -/
theorem current {f : Token → Rule β} (h : a.At (f s.token) s) : a.At (Rule.current >>= f) s :=
  fun feed hs => h feed hs

/-- Only repetitions look at their bound and at what happens behind it. -/
theorem context {f : Context → Rule β} (hturns : f a.other = f a.context)
    (h : a.At (f a.context) s) : a.At (Rule.context >>= f) s := by
  intro feed hs
  show a.Matches _ (f a.other a.other { s with feed })
  rw [hturns]
  exact h feed hs

/-- Both parses read the same dialect. -/
theorem has {feature : Feature} {f : Bool → Rule β}
    (h : a.At (f (a.context.options.has feature)) s) : a.At (Rule.has feature >>= f) s :=
  fun feed hs => h feed hs

/-! ## Failing -/

/-- Both parses blame a token alike. -/
theorem blame (token : Token) (message : Message) (arguments : List String) :
    a.At (Rule.blame token message arguments : Rule α) s := fun feed hs => ⟨feed, rfl, hs⟩

theorem refuse : a.At (Rule.refuse : Rule α) s :=
  .current (.ite (fun _ => .blame _ _ _) fun _ => .blame _ _ _)

theorem demand (wanted : String) : a.At (Rule.demand wanted : Rule α) s :=
  .current (.blame _ _ _)

theorem complain (message : Message) : a.At (Rule.complain message : Rule α) s :=
  .current (.blame _ _ _)

/-! ## Taking tokens -/

/-- A token that is not the end may be taken. -/
theorem advance (hend : s.token.isEnd = false) : a.At Rule.advance s := by
  rintro feed ⟨row, htotal, hleft, hright, hrow⟩
  cases row with
  | nil => exact absurd (hend.symm.trans hrow) Bool.false_ne_true
  | cons delivery row =>
    obtain ⟨rest, hnext, hrest⟩ := hleft
    obtain ⟨rest', hnext', hrest'⟩ := hright
    refine ⟨rest', ?_, ?_⟩
    · rw [advance_eq_ok.mpr ⟨delivery, rest, hnext, rfl⟩]
      exact advance_eq_ok.mpr ⟨delivery, rest', hnext', rfl⟩
    · rw [advance_eq_ok.mpr ⟨delivery, rest, hnext, rfl⟩]
      refine ⟨row, ?_, hrest, hrest', hrow.2⟩
      rw [← htotal, List.length_cons]
      simp only [shift]
      omega

/-- Where a token is found to stand it is not the end of the input, so it may be taken. -/
theorem at? {terminal : Terminal} {f : Bool → Rule β}
    (hyes : s.token.isEnd = false → a.At (f true) s) (hno : a.At (f false) s) :
    a.At (Rule.at? terminal >>= f) s := by
  intro feed hs
  show a.Matches (f (s.token.value == terminal.value) a.context s)
    (f (s.token.value == terminal.value) a.other { s with feed })
  cases h : s.token.value == terminal.value with
  | false => exact hno feed hs
  | true => exact hyes (isEnd_eq_false (beq_iff_eq.mp h ▸ terminal.value_ne)) feed hs

/-- A token is consumed only where it stands. -/
theorem consume {terminal : Terminal} : a.At (Rule.consume terminal) s :=
  .at? (fun hend => (advance hend).andThen fun _ _ => .give true) (.give false)

/-- A token that is expected is taken where it stands; elsewhere it is blamed for what does. -/
theorem expect (terminal : Terminal) : a.At (Rule.expect terminal) s := by
  refine .current ?_
  cases h : s.token.value == terminal.value with
  | false => exact .blame _ _ _
  | true => exact .advance (isEnd_eq_false (beq_iff_eq.mp h ▸ terminal.value_ne))

/-! ## Keeping books -/

/-- A change of the books. -/
structure Keeping (s : State) (change : State → State) : Prop where
  feed : ∀ feed, change { s with feed } = { change s with feed }
  same : (change s).feed = s.feed
  taken : (change s).taken = s.taken
  token : (change s).token = s.token
  lookahead : (change s).lookahead = s.lookahead

/-- What is changed apart from the tokens and the feed is changed alike. -/
theorem modify {change : State → State} (h : Keeping s change) : a.At (Rule.modify change) s := by
  rintro feed ⟨row, htotal, hleft, hright, hrow⟩
  refine ⟨feed, congrArg (Except.ok (), ·) (h.feed feed), row, ?_, ?_, hright, ?_⟩
  · exact h.taken ▸ htotal
  · exact h.same.symm ▸ hleft
  · exact h.token.symm ▸ h.lookahead.symm ▸ hrow

/-- Both parses mark the same place. -/
theorem mark : a.At Rule.mark s := .current (.give _)

theorem placed (start : Place) : a.At (Rule.placed start) s :=
  .context rfl (.read (fun _ => rfl) (.give _))

theorem tell (event : Event) : a.At (Rule.tell event) s :=
  .modify ⟨fun _ => rfl, rfl, rfl, rfl, rfl⟩

theorem complete (node : Node) : a.At (Rule.complete node) s := .tell _

theorem completed (expression : Expression) : a.At (Rule.completed expression) s :=
  (complete _).andThen fun _ _ => .give _

theorem openScope : a.At Rule.openScope s :=
  .read (fun _ => rfl) (.ite
    (fun _ => (modify ⟨fun _ => rfl, rfl, rfl, rfl, rfl⟩).andThen fun _ _ => .tell _)
    fun _ => .give ())

theorem closeScope : a.At Rule.closeScope s :=
  .read (fun _ => rfl) ((modify ⟨fun _ => rfl, rfl, rfl, rfl, rfl⟩).andThen fun _ _ =>
    .ite (fun _ => (tell _).andThen fun _ _ => .give _) fun _ => .give _)

theorem declare (identifier : Identifier) : a.At (Rule.declare identifier) s :=
  .read (fun _ => rfl) ((modify ⟨fun _ => rfl, rfl, rfl, rfl, rfl⟩).andThen fun _ _ =>
    .ite (fun _ => (tell _).andThen fun _ _ => .give _) fun _ => .give _)

/-- Names are declared alike, one after another. -/
theorem declareAll (identifiers : List Identifier) : a.Throughout (Rule.declareAll identifiers) := by
  induction identifiers with
  | nil => exact fun _ => .give []
  | cons identifier rest ih =>
    exact fun _ => (declare identifier).andThen fun _ s => (ih s).andThen fun _ _ => .give _

theorem declareName (name : String) : a.At (Rule.declareName name) s :=
  (modify ⟨fun _ => rfl, rfl, rfl, rfl, rfl⟩).andThen fun _ _ =>
    .read (fun _ => rfl) (.ite (fun _ => .tell _) fun _ => .give ())

theorem setJumps (jumps : Jumps) : a.At (Rule.setJumps jumps) s :=
  .modify ⟨fun _ => rfl, rfl, rfl, rfl, rfl⟩

theorem checked (result : Except JumpFault α) : a.At (Rule.checked result) s := by
  cases result with
  | ok value => exact .give value
  | error fault => exact .blame _ _ _

theorem openBlock (isLoop : Bool) : a.At (Rule.openBlock isLoop) s :=
  .read (fun _ => rfl) (.setJumps _)

theorem closeBlock : a.At Rule.closeBlock s :=
  .read (fun _ => rfl) ((checked _).andThen fun _ _ => .setJumps _)

theorem goOn : a.At Rule.goOn s := .read (fun _ => rfl) (.checked _)

theorem recordLocal (name : String) : a.At (Rule.recordLocal name) s :=
  .read (fun _ => rfl) (.setJumps _)

/-! ## Repetition -/

/-- A bound that was not reached when all tokens were taken is not reached. -/
theorem turns {turn : Rule (Turn α)} (h : a.Throughout turn) (hadvances : turn.TurnAdvances)
    (fuel fuel' : Nat) (hleft : a.total < fuel + s.taken) (hright : a.total < fuel' + s.taken)
    (hs : s.Awaits a.total feed) :
    a.Matches (Rule.turns turn fuel a.context s)
      (Rule.turns turn fuel' a.other { s with feed }) := by
  have hle := hs.taken_le
  induction fuel generalizing fuel' s feed with
  | zero => omega
  | succ fuel ih =>
    obtain ⟨fuel', rfl⟩ := Nat.exists_eq_succ_of_ne_zero (show fuel' ≠ 0 by omega)
    refine (h s feed hs).bind fun v s' hrun feed' hs' => ?_
    match v with
    | .stop => exact give [] feed' hs'
    | .last item => exact give [item] feed' hs'
    | .more item =>
      have hlt := hadvances _ _ _ _ hrun
      refine (ih fuel' (by omega) (by omega) hs' hs'.taken_le).bind fun items s'' _ feed'' hs'' => ?_
      exact give (item :: items) feed'' hs''

/-- A repetition of which every turn takes a token does the same in both parses. -/
theorem repeated {turn : Rule (Turn α)} (h : a.Throughout turn) (hadvances : turn.TurnAdvances) :
    a.At (Rule.repeated turn) s := fun _ hs =>
  turns h hadvances _ _ (Nat.lt_add_right _ a.lt_left) (Nat.lt_add_right _ a.lt_right) hs

/-- Items that take a token each are as many in both parses. -/
theorem many {item : Rule (Option α)} (h : a.Throughout item) (hadvances : item.ItemAdvances) :
    a.At (Rule.many item) s := by
  refine repeated (fun s => (h s).andThen fun v _ => ?_) hadvances.turn
  cases v with
  | none => exact .give Turn.stop
  | some item => exact .give (Turn.more item)

/-- Steps that take a token each are as many within any bounds that no number of tokens reaches. -/
theorem steps {step : α → Rule (Option α)} (h : ∀ value, a.Throughout (step value))
    (hadvances : ∀ value, (step value).ItemAdvances) (fuel fuel' : Nat)
    (hleft : a.total < fuel + s.taken) (hright : a.total < fuel' + s.taken)
    (hs : s.Awaits a.total feed) (value : α) :
    a.Matches (Rule.steps step fuel value a.context s)
      (Rule.steps step fuel' value a.other { s with feed }) := by
  have hle := hs.taken_le
  induction fuel generalizing fuel' s feed value with
  | zero => omega
  | succ fuel ih =>
    obtain ⟨fuel', rfl⟩ := Nat.exists_eq_succ_of_ne_zero (show fuel' ≠ 0 by omega)
    refine (h value s feed hs).bind fun v s' hrun feed' hs' => ?_
    match v with
    | none => exact give value feed' hs'
    | some next =>
      have hlt := hadvances value _ _ _ _ hrun
      exact ih fuel' (by omega) (by omega) hs' next hs'.taken_le

/-- A repetition of steps that take a token each does the same in both parses. -/
theorem iterated {step : α → Rule (Option α)} (h : ∀ value, a.Throughout (step value))
    (hadvances : ∀ value, (step value).ItemAdvances) (value : α) :
    a.At (Rule.iterated step value) s := fun _ hs =>
  steps h hadvances _ _ (Nat.lt_add_right _ a.lt_left) (Nat.lt_add_right _ a.lt_right) hs value

end At

end Ample

end Grammar

end LuaSyntax
