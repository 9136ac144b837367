import LuaSyntax.Grammar.Bookkeeping
import LuaSyntax.Proofs.Grammar.Leads
import LuaSyntax.Proofs.Tree.Items

/-!
# What a parse tells

An observer of a parse is told of nodes and of scopes, and this goes along with the reading of tokens.
`Told context origin items state` says that a parse came from one state to another and told of these
items on the way: each node when it was complete, between the token at which it began and the token that
was taken last, and each scope when it was opened and when it was closed. A parse that has failed has told
of some items too, with blocks among them that are still open.

What there is to say about events and places is then said of `Told`, by induction, and of rules only that
they tell of what they give.
-/

namespace LuaSyntax

/-- The part of the tree that an event tells of. -/
def Event.part? : Event → Option Node
  | .completed (.comment _) => none
  | .completed node => some node
  | _ => none

/-- The comment that an event tells of. -/
def Event.comment? : Event → Option Comment
  | .completed (.comment inner) => some inner
  | _ => none

namespace Grammar

/-- Where a node stands that began in one state and ends in another. -/
def State.ending (context : Context) (origin state : State) : Placement :=
  let last := state.previous.stop
  .between context.options context.source origin.token.start
    { last with offset := max last.offset origin.token.start.offset }

/-! ## Steps -/

/-- Where no token can be taken, nothing happens. -/
theorem Rule.advance_eq_error {context : Context} {s t : State} {error : ParseError}
    (h : advance context s = (.error error, t)) : t = s := by
  unfold advance at h
  split at h
  · exact (Prod.mk.inj h).2.symm
  · cases h

/-- A scope is opened if names are resolved, and an observer is told. -/
theorem Rule.openScope_eq (context : Context) (s : State) : openScope context s =
    (.ok (), if s.scope.enabled then
      { s with
        scope := { s.scope with frames := [] :: s.scope.frames }
        log := .scopeOpened :: s.log }
      else s) := by
  show (if s.scope.enabled = true then
    (modify fun s => { s with scope := s.scope.push }) >>= fun _ => tell .scopeOpened
    else pure () : Rule Unit) context s = _
  split
  · next henabled =>
    show (Except.ok (), { s with scope := s.scope.push, log := .scopeOpened :: s.log }) = _
    rw [Scope.push, if_pos henabled]
  · rfl

/-- The innermost scope is closed if there is one, and an observer is told. -/
theorem Rule.closeScope_eq (context : Context) (s : State) : closeScope context s =
    (.ok s.scope.pop.1, if s.scope.enabled then
      { s with scope := s.scope.pop.2, log := .scopeClosed :: s.log } else s) := by
  show ((modify fun t => { t with scope := s.scope.pop.2 }) >>= fun _ =>
    if s.scope.pop.2.enabled = true then tell .scopeClosed >>= fun _ => pure s.scope.pop.1
    else pure s.scope.pop.1 : Rule (Option (List Binding))) context s = _
  cases henabled : s.scope.enabled with
  | true =>
    have hpopped : s.scope.pop.2.enabled = true := by
      rw [Scope.pop, if_pos henabled]
      split <;> exact henabled
    rw [if_pos hpopped, if_pos rfl]
    rfl
  | false =>
    have hpop : s.scope.pop = (none, s.scope) := by rw [Scope.pop, henabled, if_neg Bool.false_ne_true]
    rw [hpop, henabled, if_neg Bool.false_ne_true, if_neg Bool.false_ne_true]
    rfl

/-- A parse that came from one state to another and told of some items. -/
inductive Told (context : Context) : State → List Item → State → Prop where
  | nothing (origin : State) : Told context origin [] origin
  | token {origin s t : State} {items : List Item} : Told context origin items s →
      s.token.isEnd = false → Rule.advance context s = (.ok (), t) → Told context origin items t
  | jumps {origin s : State} {items : List Item} : Told context origin items s → (jumps : Jumps) →
      Told context origin items { s with jumps }
  | unresolved {origin s : State} {items : List Item} : Told context origin items s →
      (unresolved : List Identifier) →
      Told context origin items { s with scope := { s.scope with unresolved } }
  | declared {origin s : State} {items : List Item} : Told context origin items s →
      s.scope.enabled = true → (binding : Binding) →
      Told context origin items
        { s with scope := s.scope.bind binding, log := .declared binding.name :: s.log }
  | opened {origin s t : State} {items : List Item} : Told context origin items s →
      Rule.openScope context s = (.ok (), t) → Told context origin (items ++ [.opened]) t
  | closed {origin s t : State} {items inner : List Item} {scope : Option (List Binding)} :
      Told context origin (items ++ .opened :: inner) s →
      Rule.closeScope context s = (.ok scope, t) →
      Told context origin (items ++ inner ++ [.scope scope]) t
  /-- What is known of a name when its node is complete, which is later than the name was told of. -/
  | renamed {origin s : State} {items others : List Item} : Told context origin items s →
      ReadAlike items others → Told context origin others s
  /-- A node is complete. Its parts were told of since it began, and a token was taken since. An observer
  is told of it as it is read. -/
  | node {origin s t : State} {items : List Item} {node : Node} : Told context origin items s →
      Told context s node.items t → s.taken < t.taken → node.placement = State.ending context s t →
      (Event.completed node).part? = some node.asRead →
      Told context origin (items ++ [.node node]) { t with log := .completed node :: t.log }

namespace Told

variable {context : Context} {origin s t : State} {items others : List Item}

/-- What was told on the way to a state and then on the way from there. -/
theorem append (h : Told context origin items s) (h' : Told context s others t) :
    Told context origin (items ++ others) t := by
  induction h' with
  | nothing => exact (List.append_nil items).symm ▸ h
  | token _ hend hrun ih => exact (ih h).token hend hrun
  | jumps _ jumps ih => exact (ih h).jumps jumps
  | unresolved _ unresolved ih => exact (ih h).unresolved unresolved
  | declared _ henabled binding ih => exact (ih h).declared henabled binding
  | opened _ hrun ih =>
    rw [← List.append_assoc]
    exact (ih h).opened hrun
  | closed _ hrun ih =>
    have hbefore := ih h
    rw [← List.append_assoc] at hbefore
    have hclosed := hbefore.closed hrun
    rwa [List.append_assoc items, List.append_assoc items] at hclosed
  | renamed _ halike ih => exact (ih h).renamed ((ReadAlike.refl items).append halike)
  | node _ hinner htaken hplacement hpart ih ih' =>
    rw [← List.append_assoc]
    exact (ih h).node hinner htaken hplacement hpart

/-- Nothing that was taken before is taken back. -/
theorem taken_le (h : Told context origin items s) : origin.taken ≤ s.taken := by
  induction h with
  | nothing => exact Nat.le_refl _
  | token _ _ hrun ih =>
    obtain ⟨_, _, -, rfl⟩ := Rule.advance_eq_ok.mp hrun
    exact Nat.le_succ_of_le ih
  | jumps _ _ ih => exact ih
  | unresolved _ _ ih => exact ih
  | declared _ _ _ ih => exact ih
  | opened _ hrun ih =>
    rw [Rule.openScope_eq] at hrun
    obtain rfl := (Prod.mk.inj hrun).2
    split <;> exact ih
  | closed _ hrun ih =>
    rw [Rule.closeScope_eq] at hrun
    obtain rfl := (Prod.mk.inj hrun).2
    split <;> exact ih
  | renamed _ _ ih => exact ih
  | node _ _ htaken _ _ ih => exact Nat.le_of_lt (Nat.lt_of_le_of_lt ih htaken)

/-- A node takes a token. -/
theorem taken_lt (h : Told context origin items s) {node : Node} (hmem : .node node ∈ items) :
    origin.taken < s.taken := by
  induction h generalizing node with
  | nothing => cases hmem
  | token _ _ hrun ih =>
    obtain ⟨_, _, -, rfl⟩ := Rule.advance_eq_ok.mp hrun
    exact Nat.lt_succ_of_lt (ih hmem)
  | jumps _ _ ih => exact ih hmem
  | unresolved _ _ ih => exact ih hmem
  | declared _ _ _ ih => exact ih hmem
  | opened _ hrun ih =>
    rw [Rule.openScope_eq] at hrun
    obtain rfl := (Prod.mk.inj hrun).2
    have hbefore := (List.mem_append.mp hmem).resolve_right (by simp)
    split <;> exact ih hbefore
  | @closed origin s t items inner scope _ hrun ih =>
    rw [Rule.closeScope_eq] at hrun
    obtain rfl := (Prod.mk.inj hrun).2
    have hbefore := (List.mem_append.mp hmem).resolve_right (by simp)
    have hlt : origin.taken < s.taken := by
      refine @ih node (List.mem_append.mpr ((List.mem_append.mp hbefore).imp_right ?_))
      exact List.mem_cons_of_mem _
    split <;> exact hlt
  | renamed _ halike ih =>
    obtain ⟨other, hother⟩ := halike.node hmem
    exact ih hother
  | node h _ htaken _ _ _ => exact Nat.lt_of_le_of_lt h.taken_le htaken

end Told

/-- A token that denotes something is not the end of the input. -/
theorem isEnd_eq_false {token : Token} (h : token.value ≠ .endOfInput) : token.isEnd = false :=
  beq_eq_false_iff_ne.mpr h

/-- No symbol and no keyword is the end of the input. -/
theorem Terminal.value_ne (terminal : Terminal) : terminal.value ≠ .endOfInput := by
  cases terminal <;> exact nofun

/-- A parse on its way from one state to another. Some rules can say that it has taken a token. -/
structure Underway (context : Context) (origin : State) (begun : Bool) (items : List Item)
    (state : State) : Prop where
  told : Told context origin items state
  taken : begun = true → origin.taken < state.taken

/-- The end of a node that began in one state: it is made of what was told since, and a token was taken. -/
structure Ended (context : Context) (origin : State) (node : Node) (state : State) : Prop where
  told : Told context origin node.items state
  taken : origin.taken < state.taken
  placement : node.placement = origin.ending context state

/-- What comes of a rule: whether it fails or not, it has told of some items. -/
structure Tidings {α : Type} (context : Context) (origin : State) (post : α → State → Prop)
    (outcome : Except ParseError α × State) : Prop where
  told : ∃ items, Told context origin items outcome.2
  value : ∀ v, outcome.1 = .ok v → post v outcome.2

variable {α β γ : Type} {context : Context} {origin : State} {items more : List Item} {begun : Bool}

namespace Rule

/-- What a rule leads to in a parse that has told of something since it was in a state. -/
def Runs (r : Rule α) (context : Context) (origin : State) (pre : State → Prop)
    (post : α → State → Prop) : Prop :=
  ∀ s, (∃ items, Told context origin items s) → pre s → Tidings context origin post (r context s)

/-- A rule tells of what it gives. -/
def Tells (r : Rule α) (items : α → List Item) : Prop :=
  ∀ context origin, r.Runs context origin (· = origin) fun v => Told context origin (items v)

namespace Runs

variable {r : Rule α} {f : α → Rule β} {pre : State → Prop} {mid : α → State → Prop}
  {post : α → State → Prop} {post' : β → State → Prop}

/-- One rule runs to where the next goes on. -/
theorem bind (h : r.Runs context origin pre mid) (hf : ∀ v, (f v).Runs context origin (mid v) post') :
    (r >>= f).Runs context origin pre post' := by
  intro s hs hpre
  have htidings := h s hs hpre
  match hrun : r context s with
  | (.ok v, t) =>
    rw [hrun] at htidings
    rw [bind_of_ok hrun]
    exact hf v t htidings.told (htidings.value v rfl)
  | (.error error, t) =>
    rw [hrun] at htidings
    rw [bind_of_error hrun]
    exact ⟨htidings.told, nofun⟩

/-- A rule runs from less and to more. -/
theorem mono {pre' : State → Prop} {post' : α → State → Prop} (h : r.Runs context origin pre post)
    (hpre : ∀ s, pre' s → pre s) (hpost : ∀ v s, post v s → post' v s) :
    r.Runs context origin pre' post' := by
  intro s hs hpre'
  obtain ⟨htold, hvalue⟩ := h s hs (hpre s hpre')
  exact ⟨htold, fun v heq => hpost v _ (hvalue v heq)⟩

/-- A rule needs no more than it says. -/
theorem since {pre' : State → Prop} (h : r.Runs context origin pre post) (hpre : ∀ s, pre' s → pre s) :
    r.Runs context origin pre' post :=
  h.mono hpre fun _ _ hs => hs

/-- What else a rule leads to. -/
theorem also {known : α → State → Prop} (h : r.Runs context origin pre post)
    (hknown : ∀ s v t, pre s → r context s = (.ok v, t) → known v t) :
    r.Runs context origin pre fun v s => post v s ∧ known v s := by
  intro s hs hpre
  obtain ⟨htold, hvalue⟩ := h s hs hpre
  exact ⟨htold, fun v heq => ⟨hvalue v heq, hknown s v _ hpre (Prod.ext heq rfl)⟩⟩

/-- What reads nothing runs to where it is. -/
theorem give {v : α} (h : ∀ s, pre s → post v s) : (pure v : Rule α).Runs context origin pre post :=
  fun s hs hpre => ⟨hs, fun _ heq => Except.ok.inj heq ▸ h s hpre⟩

/-- A choice runs to where both rules do. -/
theorem ite {c : Bool} {q : Rule α} (ht : c = true → r.Runs context origin pre post)
    (hf : c = false → q.Runs context origin pre post) :
    (if c = true then r else q).Runs context origin pre post := by
  cases c
  · exact hf rfl
  · exact ht rfl

/-- What is known of a value apart from the state is known of the rule that is given it. -/
theorem bindKnown {known : α → Prop} (h : r.Runs context origin pre fun v s => known v ∧ mid v s)
    (hf : ∀ v, known v → (f v).Runs context origin (mid v) post') :
    (r >>= f).Runs context origin pre post' :=
  h.bind fun v s hs hmid => hf v hmid.1 s hs hmid.2

/-! ## What a rule looks at -/

/-- A rule may look at a state, and then it stands there. -/
theorem read {f : State → Rule β} (h : ∀ s, pre s → (f s).Runs context origin (· = s) post') :
    (Rule.state >>= f).Runs context origin pre post' :=
  fun s hs hpre => h s hpre s hs rfl

/-- A rule may look at the current token, and then it stands there. -/
theorem current {f : Token → Rule β} (h : ∀ s, pre s → (f s.token).Runs context origin (· = s) post') :
    (Rule.current >>= f).Runs context origin pre post' :=
  fun s hs hpre => h s hpre s hs rfl

/-- A rule that looks at what is kept apart from what was told. -/
theorem look {f : State → Rule β} (h : ∀ s, (f s).Runs context origin pre post') :
    (Rule.state >>= f).Runs context origin pre post' :=
  fun s hs hpre => h s s hs hpre

/-- A rule for which it matters which token it stands at, but not what was told. -/
theorem glance {f : Token → Rule β} (h : ∀ token, (f token).Runs context origin pre post') :
    (Rule.current >>= f).Runs context origin pre post' :=
  fun s hs hpre => h s.token s hs hpre

/-- A rule may ask for a feature, whatever the answer. -/
theorem has {feature : Feature} {f : Bool → Rule β} (h : ∀ found, (f found).Runs context origin pre post') :
    (Rule.has feature >>= f).Runs context origin pre post' :=
  fun s hs hpre => h _ s hs hpre

/-! ## Failing -/

/-- What is blamed runs anywhere, since it fails. -/
theorem blame (token : Token) (message : Message) (arguments : List String) :
    (Rule.blame token message arguments : Rule α).Runs context origin pre post :=
  fun _ hs _ => ⟨hs, nofun⟩

/-- A repetition at its bound runs anywhere, since it fails. -/
theorem overrun : (Rule.overrun : Rule α).Runs context origin pre post := fun _ hs _ => ⟨hs, nofun⟩

/-- What is refused runs anywhere, since it fails. -/
theorem refuse : (Rule.refuse : Rule α).Runs context origin pre post :=
  .current fun _ _ => .ite (fun _ => .blame _ _ _) fun _ => .blame _ _ _

theorem demand (wanted : String) : (Rule.demand wanted : Rule α).Runs context origin pre post :=
  .current fun _ _ => .blame _ _ _

theorem complain (message : Message) : (Rule.complain message : Rule α).Runs context origin pre post :=
  .current fun _ _ => .blame _ _ _

/-! ## Taking tokens -/

/-- Where a token is taken something has begun, and the comments before the next were told of. -/
theorem advance (h : ∀ s, pre s → Underway context origin begun items s ∧ s.token.isEnd = false) :
    Rule.advance.Runs context origin pre fun _ => Underway context origin true items := by
  intro s hs hpre
  obtain ⟨hway, hend⟩ := h s hpre
  match hrun : Rule.advance context s with
  | (.ok (), t) =>
    have htold := hway.told.token hend hrun
    have hle := hway.told.taken_le
    obtain ⟨_, _, -, rfl⟩ := advance_eq_ok.mp hrun
    exact ⟨⟨items, htold⟩, fun _ _ => ⟨htold, fun _ => Nat.lt_succ_of_le hle⟩⟩
  | (.error error, t) =>
    obtain rfl : t = s := advance_eq_error hrun
    exact ⟨hs, nofun⟩

/-- The token at which a rule stands is taken. -/
theorem step {s : State} (hs : Underway context origin begun items s) (hend : s.token.isEnd = false) :
    Rule.advance.Runs context origin (· = s) fun _ => Underway context origin true items := by
  have hnow : ∀ t, t = s → Underway context origin begun items t ∧ t.token.isEnd = false := by
    rintro _ rfl
    exact ⟨hs, hend⟩
  exact advance hnow

/-- A terminal that is found is not the end of the input. -/
theorem at? {terminal : Terminal} {f : Bool → Rule β}
    (hyes : (f true).Runs context origin (fun s => pre s ∧ s.token.isEnd = false) post')
    (hno : (f false).Runs context origin pre post') :
    (Rule.at? terminal >>= f).Runs context origin pre post' := by
  intro s hs hpre
  show Tidings context origin post' (f (s.token.value == terminal.value) context s)
  cases h : s.token.value == terminal.value with
  | false => exact hno s hs hpre
  | true => exact hyes s hs ⟨hpre, isEnd_eq_false (beq_iff_eq.mp h ▸ terminal.value_ne)⟩

/-- Where a token is consumed something has begun. -/
theorem consume {terminal : Terminal} {f : Bool → Rule β}
    (hyes : (f true).Runs context origin (Underway context origin true items) post')
    (hno : (f false).Runs context origin (Underway context origin begun items) post') :
    (Rule.consume terminal >>= f).Runs context origin (Underway context origin begun items) post' := by
  rw [Rule.consume, bind_assoc]
  refine .at? ?_ hno
  exact Rule.bind_assoc f ▸ (advance fun _ hs => hs).bind fun _ => hyes

/-- Where a token was expected and taken something has begun. -/
theorem expect (terminal : Terminal) : (Rule.expect terminal).Runs context origin
    (Underway context origin begun items) fun _ => Underway context origin true items := by
  refine .current fun s hs => ?_
  cases h : s.token.value == terminal.value with
  | false => exact .blame _ _ _
  | true =>
    have hend := isEnd_eq_false (beq_iff_eq.mp h ▸ terminal.value_ne)
    exact advance fun _ heq => ⟨heq ▸ hs, heq ▸ hend⟩

/-! ## Nodes -/

/-- A place is marked where a rule begins. -/
theorem mark {f : Place → Rule β} (h : (f origin.token.start).Runs context origin
    (Underway context origin false []) post') : (Rule.mark >>= f).Runs context origin (· = origin) post' := by
  rintro _ hs rfl
  exact h _ hs ⟨.nothing _, nofun⟩

/-- The place that is marked is that of the token at which a rule begins. -/
theorem markAt {f : Place → Rule β}
    (h : (f origin.token.start).Runs context origin (· = origin) post') :
    (Rule.mark >>= f).Runs context origin (· = origin) post' := by
  rintro _ hs rfl
  exact h _ hs rfl

/-- A node is put together where it ends. -/
theorem close {node : Placement → Node} {f : Placement → Rule β}
    (hitems : ∀ placement, (node placement).items = items)
    (hplacement : ∀ placement, (node placement).placement = placement)
    (hf : ∀ placement, (f placement).Runs context origin (Ended context origin (node placement)) post') :
    (Rule.placed origin.token.start >>= f).Runs context origin (Underway context origin true items)
      post' := by
  rintro s hs ⟨htold, htaken⟩
  have hended : Ended context origin (node (origin.ending context s)) s :=
    ⟨(hitems _).symm ▸ htold, htaken rfl, hplacement _⟩
  exact hf (origin.ending context s) s hs hended

/-- What is put together is given to who will tell of it. -/
theorem ended {node : Placement → Node} {make : Placement → β}
    (hitems : ∀ placement, (node placement).items = items)
    (hplacement : ∀ placement, (node placement).placement = placement)
    (hpost : ∀ placement s, Ended context origin (node placement) s → post' (make placement) s) :
    (Rule.placed origin.token.start >>= fun placement => pure (make placement)).Runs context origin
      (Underway context origin true items) post' :=
  .close hitems hplacement fun placement => .give (hpost placement)

/-- An observer is told of a node where it ends. -/
theorem complete {node : Node} (hpart : (Event.completed node).part? = some node.asRead) :
    (Rule.complete node).Runs context origin (Ended context origin node)
      fun _ => Underway context origin true [.node node] := by
  intro s _ hs
  have htold := (Told.nothing origin).node hs.told hs.taken hs.placement hpart
  exact ⟨⟨_, htold⟩, fun _ _ => ⟨htold, fun _ => hs.taken⟩⟩

/-- A node is put together where it ends, and an observer is told at once. -/
theorem node {node : Placement → Node} {f : Placement → Rule β}
    (hitems : ∀ placement, (node placement).items = items)
    (hplacement : ∀ placement, (node placement).placement = placement)
    (hpart : ∀ placement, (Event.completed (node placement)).part? = some (node placement).asRead)
    (hf : ∀ placement, (f placement).Runs context origin
      (Underway context origin true [.node (node placement)]) post') :
    (Rule.placed origin.token.start >>= fun placement => Rule.complete (node placement) >>= fun _ =>
      f placement).Runs context origin (Underway context origin true items) post' :=
  .close hitems hplacement fun placement => (complete (hpart placement)).bind fun _ => hf placement

/-- An expression that is no name, literal or table is told of as an expression. -/
theorem completed {expression : Expression} (hitem : expression.item = .node (.expression expression)) :
    (Rule.completed expression).Runs context origin (Ended context origin (.expression expression))
      fun v => Underway context origin true [v.item] :=
  (complete rfl).bind fun _ => .give fun _ hs => hitem ▸ hs

/-- An expression is put together where it ends, and an observer is told at once. -/
theorem expression {make : Placement → Expression}
    (hitems : ∀ placement, (make placement).items = items)
    (hplacement : ∀ placement, (make placement).placement = placement)
    (hitem : ∀ placement, (make placement).item = .node (.expression (make placement))) :
    (Rule.placed origin.token.start >>= fun placement => Rule.completed (make placement)).Runs context
      origin (Underway context origin true items) fun v => Underway context origin true [v.item] := by
  have hnode : ∀ placement, (Node.expression (make placement)).items = items := hitems
  exact .close hnode hplacement fun placement => .completed (hitem placement)

end Runs

namespace Tells

variable {r : Rule α} {f : α → Rule β} {what : α → List Item} {whole : β → List Item}

/-- What is known when a rule begins. -/
theorem of_runs (h : ∀ context origin, r.Runs context origin (Underway context origin false [])
    fun v => Told context origin (what v)) : r.Tells what := by
  intro context origin
  exact (h context origin).mono (fun s hs => hs ▸ ⟨.nothing _, nofun⟩) fun _ _ hs => hs

/-- What a rule tells from a state that is known is told behind what was told before. -/
theorem inside {s : State} (hs : Underway context origin begun items s)
    (h : r.Runs context s (· = s) fun v => Told context s (what v)) :
    r.Runs context origin (· = s) fun v => Underway context origin begun (items ++ what v) := by
  rintro _ - rfl
  obtain ⟨htold, htaken⟩ := hs
  obtain ⟨⟨more, hmore⟩, hvalue⟩ := h _ ⟨[], .nothing _⟩ rfl
  refine ⟨⟨_, htold.append hmore⟩, fun v heq => ?_⟩
  have htold' := htold.append (hvalue v heq)
  exact ⟨htold', fun hbegun => Nat.lt_of_lt_of_le (htaken hbegun) (hvalue v heq).taken_le⟩

/-- What a rule tells is told behind what was told before. -/
theorem runsAt {s : State} (h : r.Tells what) (hs : Underway context origin begun items s) :
    r.Runs context origin (· = s) fun v => Underway context origin begun (items ++ what v) :=
  inside hs (h context s)

/-- What a rule tells is told behind what was told before. -/
theorem runs (h : r.Tells what) : r.Runs context origin (Underway context origin begun items)
    fun v => Underway context origin begun (items ++ what v) :=
  fun s hs hway => h.runsAt hway s hs rfl

/-- What a rule tells is told before what the next does. -/
theorem bind {post : β → State → Prop} (h : r.Tells what)
    (hf : ∀ v, (f v).Runs context origin (Underway context origin begun (items ++ what v)) post) :
    (r >>= f).Runs context origin (Underway context origin begun items) post :=
  h.runs.bind hf

/-! ## Repetition -/

/-- Turns tell of their items, one turn after another. -/
theorem turns {turn : Rule (Turn α)} (h : turn.Tells fun v => v.items.flatMap what) (fuel : Nat) :
    (Rule.turns turn fuel).Tells fun values => values.flatMap what := by
  induction fuel with
  | zero => exact of_runs fun _ _ => .overrun
  | succ fuel ih =>
    refine of_runs fun context origin => h.bind fun v => ?_
    match v with
    | .stop => exact .give fun _ hs => hs.told
    | .last item => exact .give fun _ hs => hs.told
    | .more item =>
      refine ih.bind fun values => .give fun _ hs => ?_
      rw [List.flatMap_cons]
      simpa [Turn.items] using hs.told

/-- What every turn tells is told in their order. -/
theorem repeated {turn : Rule (Turn α)} (h : turn.Tells fun v => v.items.flatMap what) :
    (Rule.repeated turn).Tells fun values => values.flatMap what :=
  fun context => turns h context.turns context

/-- A row of items is told of item by item. -/
theorem many {item : Rule (Option α)} {what : α → Item} (h : item.Tells fun v => v.toList.map what) :
    (Rule.many item).Tells fun values => values.map what := by
  have hrepeated : (Rule.many item).Tells fun values => values.flatMap fun a => [what a] := by
    refine repeated (of_runs fun context origin => h.bind fun v => ?_)
    cases v with
    | none => exact .give fun _ hs => hs.told
    | some a => exact .give fun _ hs => hs.told
  intro context origin
  refine (hrepeated context origin).mono (fun _ hs => hs) fun values _ hs => ?_
  show Told context origin (values.map what) _
  rwa [List.map_eq_flatMap]

end Tells

/-- What a step keeps of a value, if it gives another, or leaves it as it is, holds in the end. -/
theorem Runs.iterated {step : α → Rule (Option α)} (invariant : α → State → Prop)
    (h : ∀ value, (step value).Runs context origin (invariant value) fun v => invariant (v.getD value))
    (value : α) : (Rule.iterated step value).Runs context origin (invariant value) invariant := by
  have hsteps (fuel : Nat) : ∀ value,
      (steps step fuel value).Runs context origin (invariant value) invariant := by
    induction fuel with
    | zero => exact fun _ => .overrun
    | succ fuel ih =>
      refine fun value => (h value).bind fun v => ?_
      cases v with
      | none => exact .give fun _ hs => hs
      | some next => exact ih next
  exact hsteps context.turns value

end Rule

end Grammar

end LuaSyntax
