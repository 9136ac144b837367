import LuaSyntax.Proofs.Grammar.Levels
import LuaSyntax.Proofs.Grammar.Lockstep.Diagonal

/-!
# Rules that rest on those for what is nested

Only the rules for a statement and for an expression count what is open. Every other rule keeps out of that: it
leaves the count as it is, does not look at it, and comes to the same whatever it is. What is made of such rules
and of those for what is nested `Rests` on the latter, and on nothing else. So what is to be said of counting is
said by induction on how a rule is made, once for each thing that there is to say, and of the rules of the grammar
only that they are made so.

A rule rests early on what is nested if it may ask for that before it has taken a token. A statement and an
expression do not, and so there is never more open than tokens were taken.
-/

namespace LuaSyntax.Grammar

open Rule

variable {α β : Type}

/-! ## Rules that keep out of counting -/

/-- A state that has come to the same but for what is open. -/
def State.counting (s : State) (depth deepest : Nat) : State := { s with depth, deepest }

/-- A state that has gone on from another: what was taken since then came from the feed. -/
structure State.Onward (s t : State) : Prop where
  taken : s.taken ≤ t.taken
  /-- A feed that fails in the end gives no more than it holds. -/
  held : ∀ error, s.feed.ending = .error error →
    t.feed.ending = .error error ∧ t.taken + t.feed.size = s.taken + s.feed.size

namespace State.Onward

variable {s t u : State}

/-- A state has gone on from itself. -/
theorem refl (s : State) : s.Onward s := ⟨Nat.le_refl _, fun _ hending => ⟨hending, rfl⟩⟩

/-- To go on may be done in two parts. -/
theorem trans (h : s.Onward t) (h' : t.Onward u) : s.Onward u where
  taken := Nat.le_trans h.taken h'.taken
  held error hending :=
    have ⟨hending', hheld⟩ := h.held error hending
    have ⟨hending'', hheld'⟩ := h'.held error hending'
    ⟨hending'', hheld'.trans hheld⟩

/-- Where nothing was taken a parse has gone on by nothing. -/
theorem of_eq (hfeed : t.feed = s.feed) (htaken : t.taken = s.taken) : s.Onward t where
  taken := Nat.le_of_eq htaken.symm
  held error hending := by
    rw [hfeed, htaken]
    exact ⟨hending, rfl⟩

/-- To take a token is to go on. -/
theorem shift {delivery : Delivery} {feed : Feed} (h : s.feed.next = .ok (delivery, feed)) :
    s.Onward (Rule.shift s delivery feed) where
  taken := Nat.le_succ _
  held error hending := by
    match hfeed : s.feed with
    | ⟨[], ending⟩ =>
      rw [hfeed] at h hending
      obtain rfl : ending = .error error := hending
      cases h
    | ⟨first :: row, ending⟩ =>
      rw [hfeed] at h hending
      cases h
      exact ⟨hending, Nat.add_right_comm _ 1 row.length⟩

end State.Onward

/-- A rule that neither looks at what is open nor changes it, and gives back no token. -/
structure Rule.Aloof (r : Rule α) : Prop where
  blind : ∀ context s depth deepest, r context (s.counting depth deepest) =
    ((r context s).1, (r context s).2.counting depth deepest)
  onward : ∀ context (s : State), s.Onward (r context s).2

namespace Rule.Aloof

variable {r : Rule α}

/-- What is open stays as it is. -/
theorem kept (h : r.Aloof) (context : Context) (s : State) :
    (r context s).2.depth = s.depth ∧ (r context s).2.deepest = s.deepest := by
  have hblind : (r context s).2 = (r context s).2.counting s.depth s.deepest :=
    congrArg Prod.snd (h.blind context s s.depth s.deepest)
  rw [hblind]
  exact ⟨rfl, rfl⟩

/-- What reads nothing keeps out of counting. -/
theorem give (v : α) : (pure v : Rule α).Aloof := ⟨fun _ _ _ _ => rfl, fun _ _ => .refl _⟩

/-- A repetition at its bound fails without counting. -/
theorem overrun : (Rule.overrun : Rule α).Aloof := ⟨fun _ _ _ _ => rfl, fun _ _ => .refl _⟩

/-- What a parse was given is no matter of counting. -/
theorem context : Rule.context.Aloof := ⟨fun _ _ _ _ => rfl, fun _ _ => .refl _⟩

/-- Features of the dialect are no matter of counting. -/
theorem has (feature : Feature) : (Rule.has feature).Aloof := ⟨fun _ _ _ _ => rfl, fun _ _ => .refl _⟩

/-- Blaming a token keeps out of counting. -/
theorem blame (token : Token) (message : Message) (arguments : List String) :
    (Rule.blame token message arguments : Rule α).Aloof :=
  ⟨fun _ _ _ _ => rfl, fun _ _ => .refl _⟩

/-- A change of something else. -/
theorem modify {change : State → State}
    (h : ∀ (s : State) depth deepest, change (s.counting depth deepest) = (change s).counting depth deepest)
    (hkeeps : ∀ s : State, (change s).feed = s.feed ∧ (change s).taken = s.taken) : (Rule.modify change).Aloof :=
  ⟨fun _ s depth deepest => congrArg (Except.ok (), ·) (h s depth deepest),
    fun _ s => .of_eq (hkeeps s).1 (hkeeps s).2⟩

/-- Taking a token keeps out of counting. -/
theorem advance : Rule.advance.Aloof := by
  refine ⟨fun context s depth deepest => ?_, fun context s => ?_⟩
  · simp only [Rule.advance, State.counting]
    cases s.feed.next <;> rfl
  · simp only [Rule.advance]
    cases hnext : s.feed.next with
    | error error => exact .refl s
    | ok found => exact .shift hnext

/-- Rules one behind the other keep out of counting if each does. -/
theorem bind {f : α → Rule β} (h : r.Aloof) (hf : ∀ v, (f v).Aloof) : (r >>= f).Aloof where
  blind context s depth deepest := by
    have hblind := h.blind context s depth deepest
    match hrun : r context s with
    | (.ok v, t) =>
      rw [hrun] at hblind
      rw [bind_of_ok hblind, bind_of_ok hrun]
      exact (hf v).blind context t depth deepest
    | (.error error, t) =>
      rw [hrun] at hblind
      rw [bind_of_error hblind, bind_of_error hrun]
  onward context s := by
    have honward := h.onward context s
    match hrun : r context s with
    | (.ok v, t) =>
      rw [hrun] at honward
      rw [bind_of_ok hrun]
      exact honward.trans ((hf v).onward context t)
    | (.error error, t) =>
      rw [hrun] at honward
      rw [bind_of_error hrun]
      exact honward

/-- A choice keeps out of counting if both rules do. -/
theorem ite {c : Bool} {q : Rule α} (hr : r.Aloof) (hq : q.Aloof) : (if c = true then r else q).Aloof := by
  cases c
  · exact hq
  · exact hr

/-- A token is consumed or not, without counting. -/
theorem consume (terminal : Terminal) : (Rule.consume terminal).Aloof := by
  have hat : (Rule.at? terminal).Aloof := ⟨fun _ _ _ _ => rfl, fun _ _ => .refl _⟩
  refine hat.bind fun found => ?_
  cases found with
  | false => exact .give false
  | true => exact .bind .advance fun _ => .give true

end Rule.Aloof

/-! ## How rules are made -/

/-- What is made of rules that keep out of counting and of those for what is nested. If it does not rest on them
early, then it asks for what is nested only where a token was taken. -/
inductive Rests : Bool → {α : Type} → (Nested → Rule α) → Prop
  | aloof {early : Bool} {α : Type} {r : Rule α} : r.Aloof → Rests early fun _ => r
  | nestedStatement : Rests true Nested.statement
  | nestedExpression (level : Nat) : Rests true fun nested => nested.expression level
  /-- What comes behind a rule that has taken a token may ask for what is nested. -/
  | bind {early : Bool} {α β : Type} {r : Nested → Rule α} {f : α → Nested → Rule β} (takes : α → Bool) :
      Rests early r →
      (∀ nested context s v t, takes v = true → r nested context s = (.ok v, t) → s.taken < t.taken) →
      (∀ v, Rests (early || takes v) (f v)) → Rests early fun nested => r nested >>= fun v => f v nested
  /-- A rule may look at all else. -/
  | look {early : Bool} {α : Type} {f : State → Nested → Rule α} :
      (∀ (s : State) depth deepest, f (s.counting depth deepest) = f s) →
      (∀ s, Rests early (f s)) → Rests early fun nested => Rule.state >>= fun s => f s nested

namespace Rests

variable {early : Bool} {r q : Nested → Rule α} {f : α → Nested → Rule β}

/-- Rules one behind the other ask early if one of them does. -/
theorem andThen (h : Rests early r) (hf : ∀ v, Rests early (f v)) :
    Rests early fun nested => r nested >>= fun v => f v nested := by
  refine .bind (fun _ => false) h (fun _ _ _ _ _ => nofun) fun v => ?_
  rw [Bool.or_false]
  exact hf v

/-- A rule that takes a token, and what comes behind it. -/
theorem behind {r : Rule α} (h : Rests early fun _ => r) (htakes : r.Takes) (hf : ∀ v, Rests true (f v)) :
    Rests early fun nested => r >>= fun v => f v nested := by
  refine .bind (fun _ => true) h (fun _ context s v t _ hrun => ?_) fun v => ?_
  · exact htakes s.taken context s v t (Nat.le_refl _) hrun
  · rw [Bool.or_true]
    exact hf v

/-- What reads nothing does not ask for what is nested. -/
theorem give (v : α) : Rests early fun _ => pure v := .aloof (.give v)

/-- A choice asks as early as the rule that was chosen. -/
theorem ite {c : Bool} (ht : c = true → Rests early r) (hf : c = false → Rests early q) :
    Rests early fun nested => if c = true then r nested else q nested := by
  cases c
  · exact hf rfl
  · exact ht rfl

/-- To look at the current token is not to take it. -/
theorem current {f : Token → Nested → Rule β} (h : ∀ token, Rests early (f token)) :
    Rests early fun nested => Rule.current >>= fun token => f token nested :=
  .look (f := fun s nested => f s.token nested) (fun _ _ _ => rfl) fun s => h s.token

/-- To mark a place is not to take a token. -/
theorem mark {f : Place → Nested → Rule β} (h : ∀ start, Rests early (f start)) :
    Rests early fun nested => Rule.mark >>= fun start => f start nested :=
  current (f := fun token => f token.start) fun token => h token.start

/-- Which features there are is known before anything is nested. -/
theorem has {feature : Feature} {f : Bool → Nested → Rule β} (h : ∀ found, Rests early (f found)) :
    Rests early fun nested => Rule.has feature >>= fun found => f found nested :=
  .andThen (.aloof (.has feature)) h

/-! ### Failing -/

theorem blame (token : Token) (message : Message) (arguments : List String) :
    Rests early fun _ => (Rule.blame token message arguments : Rule α) := .aloof (.blame _ _ _)

theorem refuse : Rests early fun _ => (Rule.refuse : Rule α) :=
  current fun _ => .ite (fun _ => .blame _ _ _) fun _ => .blame _ _ _

theorem demand (wanted : String) : Rests early fun _ => (Rule.demand wanted : Rule α) :=
  current fun _ => .blame _ _ _

theorem complain (message : Message) : Rests early fun _ => (Rule.complain message : Rule α) :=
  current fun _ => .blame _ _ _

/-! ### Taking tokens -/

theorem advance : Rests early fun _ => Rule.advance := .aloof .advance

/-- A token is taken, and what comes behind it. -/
theorem advanced {q : Nested → Rule β} (h : Rests true q) :
    Rests early fun nested => Rule.advance >>= fun _ => q nested :=
  .behind advance takes_advance fun _ => h

/-- To find a terminal is not to take it. -/
theorem at? {terminal : Terminal} {f : Bool → Nested → Rule β} (h : ∀ found, Rests early (f found)) :
    Rests early fun nested => Rule.at? terminal >>= fun found => f found nested :=
  current (f := fun token => f (token.value == terminal.value)) fun _ => h _

/-- Behind a token that was consumed what is nested may be asked for. -/
theorem consume {terminal : Terminal} {f : Bool → Nested → Rule β} (ht : Rests true (f true))
    (hf : Rests early (f false)) :
    Rests early fun nested => Rule.consume terminal >>= fun found => f found nested := by
  refine .bind id ?_ (fun _ context s v t htrue hrun => ?_) fun found => ?_
  · exact at? fun found => .ite (fun _ => .andThen advance fun _ => .give true) fun _ => .give false
  · obtain rfl : v = true := htrue
    have hconsume : (Rule.consume terminal).Leads (State.Past s.taken)
        fun found s' => found = true → State.Past (s.taken + 1) s' :=
      (steady_at? terminal s.taken).bind fun _ => .ite
        (fun _ => (takes_advance s.taken).bind fun _ => .give fun _ hs _ => hs)
        fun _ => .give fun _ _ => nofun
    exact hconsume context s true t (Nat.le_refl _) hrun rfl
  · cases found
    · rwa [id, Bool.or_false]
    · rwa [id, Bool.or_true]

theorem expect {terminal : Terminal} : Rests early fun _ => Rule.expect terminal :=
  current fun _ => .ite (fun _ => advance) fun _ => .blame _ _ _

/-- A token that has to be there, and what comes behind it. -/
theorem expected {terminal : Terminal} {q : Nested → Rule β} (h : Rests true q) :
    Rests early fun nested => Rule.expect terminal >>= fun _ => q nested :=
  .behind expect (takes_expect terminal) fun _ => h

/-! ### Keeping books -/

/-- A change of something else, which takes no token. -/
theorem modify {change : State → State}
    (h : ∀ (s : State) depth deepest, change (s.counting depth deepest) = (change s).counting depth deepest)
    (hkeeps : ∀ s : State, (change s).feed = s.feed ∧ (change s).taken = s.taken) :
    Rests early fun _ => Rule.modify change :=
  .aloof (.modify h hkeeps)

theorem tell (event : Event) : Rests early fun _ => Rule.tell event :=
  .modify (fun _ _ _ => rfl) fun _ => ⟨rfl, rfl⟩

theorem complete (node : Node) : Rests early fun _ => Rule.complete node := tell _

theorem completed (expression : Expression) : Rests early fun _ => Rule.completed expression :=
  .andThen (complete _) fun _ => .give _

theorem placed (start : Place) : Rests early fun _ => Rule.placed start :=
  .andThen (.aloof .context) fun _ => .look (fun _ _ _ => rfl) fun _ => .give _

theorem openScope : Rests early fun _ => Rule.openScope :=
  .look (fun _ _ _ => rfl) fun _ => .ite
    (fun _ => .andThen (.modify (fun _ _ _ => rfl) fun _ => ⟨rfl, rfl⟩) fun _ => tell _) fun _ => .give ()

theorem closeScope : Rests early fun _ => Rule.closeScope :=
  .look (fun _ _ _ => rfl) fun _ => .andThen (.modify (fun _ _ _ => rfl) fun _ => ⟨rfl, rfl⟩) fun _ =>
    .ite (fun _ => .andThen (tell _) fun _ => .give _) fun _ => .give _

theorem declare (identifier : Identifier) : Rests early fun _ => Rule.declare identifier :=
  .look (fun _ _ _ => rfl) fun _ => .andThen (.modify (fun _ _ _ => rfl) fun _ => ⟨rfl, rfl⟩) fun _ =>
    .ite (fun _ => .andThen (tell _) fun _ => .give _) fun _ => .give _

/-- Names are declared one after another, and nothing is nested in them. -/
theorem declareAll (identifiers : List Identifier) : Rests early fun _ => Rule.declareAll identifiers := by
  induction identifiers with
  | nil => exact .give []
  | cons identifier rest ih => exact .andThen (declare identifier) fun _ => .andThen ih fun _ => .give _

theorem declareName (name : String) : Rests early fun _ => Rule.declareName name :=
  .andThen (.modify (fun _ _ _ => rfl) fun _ => ⟨rfl, rfl⟩) fun _ => .look (fun _ _ _ => rfl) fun _ =>
    .ite (fun _ => tell _) fun _ => .give ()

theorem setJumps (jumps : Jumps) : Rests early fun _ => Rule.setJumps jumps :=
  .modify (fun _ _ _ => rfl) fun _ => ⟨rfl, rfl⟩

theorem checked (result : Except JumpFault α) : Rests early fun _ => Rule.checked result := by
  cases result with
  | ok value => exact .give value
  | error fault => exact .blame _ _ _

theorem openBlock (isLoop : Bool) : Rests early fun _ => Rule.openBlock isLoop :=
  .look (fun _ _ _ => rfl) fun _ => setJumps _

theorem closeBlock : Rests early fun _ => Rule.closeBlock :=
  .look (fun _ _ _ => rfl) fun _ => .andThen (checked _) fun _ => setJumps _

theorem goOn : Rests early fun _ => Rule.goOn := .look (fun _ _ _ => rfl) fun _ => checked _

theorem recordLocal (name : String) : Rests early fun _ => Rule.recordLocal name :=
  .look (fun _ _ _ => rfl) fun _ => setJumps _

/-! ### Repetition -/

/-- Turns ask for what is nested as early as one turn does. -/
theorem turns {turn : Nested → Rule (Turn α)} (h : Rests early turn) (fuel : Nat) :
    Rests early fun nested => Rule.turns (turn nested) fuel := by
  induction fuel with
  | zero => exact .aloof .overrun
  | succ fuel ih =>
    refine .andThen h fun v => ?_
    cases v with
    | stop => exact .give []
    | last item => exact .give [item]
    | more item => exact .andThen ih fun _ => .give _

/-- A repetition asks as early as one turn does. -/
theorem repeated {turn : Nested → Rule (Turn α)} (h : Rests early turn) :
    Rests early fun nested => Rule.repeated (turn nested) :=
  .andThen (.aloof .context) fun context => turns h context.turns

/-- A row of items asks as early as one item does. -/
theorem many {item : Nested → Rule (Option α)} (h : Rests early item) :
    Rests early fun nested => Rule.many (item nested) := by
  refine repeated (.andThen h fun v => ?_)
  cases v with
  | none => exact .give _
  | some item => exact .give _

/-- Steps ask for what is nested as early as one step does. -/
theorem steps {step : α → Nested → Rule (Option α)} (h : ∀ value, Rests early (step value)) (fuel : Nat) :
    ∀ value, Rests early fun nested => Rule.steps (fun value => step value nested) fuel value := by
  induction fuel with
  | zero => exact fun _ => .aloof .overrun
  | succ fuel ih =>
    intro value
    refine .andThen (h value) fun v => ?_
    cases v with
    | none => exact .give value
    | some next => exact ih next

/-- A repetition of steps asks as early as one step does. -/
theorem iterated {step : α → Nested → Rule (Option α)} (h : ∀ value, Rests early (step value)) (value : α) :
    Rests early fun nested => Rule.iterated (fun value => step value nested) value :=
  .andThen (.aloof .context) fun context => steps h context.turns value

end Rests

end LuaSyntax.Grammar
