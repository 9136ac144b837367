import LuaSyntax.Proofs.Grammar.Grounded.Ground
import LuaSyntax.Proofs.Grammar.Repetition

/-!
# Rules that build on a ground

`Rule.Builds g base good` says of a rule that from a grounded state it comes to a grounded state and
gives a good value, or fails with a known error. `base` is what the rule needs besides, such as that a
place was marked. It has to be kept by the taking of tokens, so that it still holds behind every part of
the rule; and whatever else of that kind held before the rule still holds behind it.
-/

namespace LuaSyntax.Grammar

variable {α β : Type} {g : Ground} {base base' : State → Prop} {good : α → Prop} {start : Place}

/-- A parse of the source that a ground is of. -/
structure Context.Of (g : Ground) (context : Context) : Prop where
  options : context.options = g.options
  source : context.source = g.source
  overrun : ∀ {known : Token}, g.token known → g.error (context.overrun known)

/-- A rule comes out with a good value in a grounded state, or with a known error. -/
structure Fares (g : Ground) (good : α → Prop) (pre : State → Prop)
    (outcome : Except ParseError α × State) : Prop where
  value : ∀ v, outcome.1 = .ok v → good v ∧ outcome.2.Grounded g ∧ pre outcome.2
  error : ∀ error, outcome.1 = .error error → g.error error

/-- If there is no token to take, the feed ends with an error. -/
theorem Rule.ending_of_advance {context : Context} {s t : State} {error : ParseError}
    (h : advance context s = (.error error, t)) : s.feed.ending = .error error := by
  unfold advance at h
  split at h
  · next _ hnext =>
    obtain rfl := Except.error.inj (Prod.mk.inj h).1
    rw [Feed.next] at hnext
    split at hnext
    · cases hnext
    · cases hending : s.feed.ending with
      | ok last =>
        rw [hending] at hnext
        cases hnext
      | error error =>
        rw [hending] at hnext
        exact congrArg Except.error (Except.error.inj hnext)
  · cases h

/-- A rule that builds on a ground. -/
def Rule.Builds (r : Rule α) (g : Ground) (base : State → Prop) (good : α → Prop) : Prop :=
  ∀ (pre : State → Prop) [Closed pre], (∀ s, pre s → base s) → ∀ context s, context.Of g →
    s.Grounded g → pre s → Fares g good pre (r context s)

namespace Rule.Builds

variable {r : Rule α} {f : α → Rule β} {good' : β → Prop}

/-- A good value may be given. -/
theorem give {v : α} (h : good v) : (pure v : Rule α).Builds g base good :=
  fun _ _ _ _ _ _ hs hpre => ⟨fun _ heq => Except.ok.inj heq ▸ ⟨h, hs, hpre⟩, nofun⟩

/-- A rule may build on what another has given. -/
theorem bind (h : r.Builds g base good) (hf : ∀ v, good v → (f v).Builds g base good') :
    (r >>= f).Builds g base good' := by
  intro pre _ hbase context s hof hs hpre
  have hr := h pre hbase context s hof hs hpre
  match hrun : r context s with
  | (.ok v, t) =>
    rw [hrun] at hr
    obtain ⟨hv, ht, hpre⟩ := hr.value v rfl
    rw [bind_of_ok hrun]
    exact hf v hv pre hbase context t hof ht hpre
  | (.error error, t) =>
    rw [hrun] at hr
    rw [bind_of_error hrun]
    exact ⟨nofun, fun _ heq => Except.error.inj heq ▸ hr.error error rfl⟩

/-- A rule can be built on more than it needs. -/
theorem on (h : r.Builds g base good) (hbase : ∀ s, base' s → base s) : r.Builds g base' good :=
  fun pre _ hpre => h pre fun s hs => hbase s (hpre s hs)

/-- A choice builds on a ground if both rules do. -/
theorem ite {c : Bool} {q : Rule α} (ht : c = true → r.Builds g base good)
    (hf : c = false → q.Builds g base good) : (if c = true then r else q).Builds g base good := by
  cases c
  · exact hf rfl
  · exact ht rfl

/-- What is there is given as something that might have been missing. -/
theorem some (h : r.Builds g base good) :
    (r >>= fun v => pure (Option.some v)).Builds g base fun v => ∀ a ∈ v, good a :=
  h.bind fun _ hv => .give fun _ heq => Option.some.inj heq ▸ hv

/-- A rule that is only sometimes there, before another. -/
theorem branch {c : Bool} {q : Rule Unit} (hq : q.Builds g base fun _ => True)
    (hr : r.Builds g base good) : (if c = true then q >>= fun _ => r else r).Builds g base good :=
  .ite (fun _ => hq.bind fun _ _ => hr) fun _ => hr

/-! ## What a rule looks at -/

/-- A rule may look at what the parse was given, which is of the ground. -/
theorem context {f : Context → Rule β}
    (h : ∀ context, context.Of g → (f context).Builds g base good') :
    (Rule.context >>= f).Builds g base good' :=
  fun pre _ hbase context s hof hs hpre => h context hof pre hbase context s hof hs hpre

/-- A rule may look at a state, which is grounded. -/
theorem read {f : State → Rule β} (h : ∀ s, s.Grounded g → base s → (f s).Builds g base good') :
    (Rule.state >>= f).Builds g base good' :=
  fun pre _ hbase context s hof hs hpre =>
    h s hs (hbase s hpre) pre hbase context s hof hs hpre

/-- A rule may look at the current token, which is known. -/
theorem current {f : Token → Rule β} (h : ∀ token, g.token token → (f token).Builds g base good') :
    (Rule.current >>= f).Builds g base good' :=
  fun pre _ hbase context s hof hs hpre =>
    h s.token hs.token pre hbase context s hof hs hpre

/-- A rule may ask for a feature, which is then one of the ground. -/
theorem has {feature : Feature} {f : Bool → Rule β}
    (h : ∀ found, (found = true → g.demands.feature feature) → (f found).Builds g base good') :
    (Rule.has feature >>= f).Builds g base good' := by
  intro pre _ hbase context s hof hs hpre
  refine h _ (fun hfound => ?_) pre hbase context s hof hs hpre
  rw [hof.options] at hfound
  exact g.feature hfound

/-- A token that is found is known, and so is the feature that it needs. -/
theorem at? {terminal : Terminal} {f : Bool → Rule β}
    (hyes : (∀ feature ∈ terminal.value.feature?, g.demands.feature feature) →
      (f true).Builds g base good')
    (hno : (f false).Builds g base good') : (Rule.at? terminal >>= f).Builds g base good' := by
  intro pre _ hbase context s hof hs hpre
  show Fares g good' pre (f (s.token.value == terminal.value) context s)
  cases h : s.token.value == terminal.value with
  | false => exact hno pre hbase context s hof hs hpre
  | true =>
    refine hyes (fun feature hmem => ?_) pre hbase context s hof hs hpre
    exact g.word hs.token feature (by rwa [beq_iff_eq.mp h])

theorem looks (terminal : Terminal) : (Rule.at? terminal).Builds g base fun _ => True :=
  .current fun _ _ => .give trivial

/-- A place is marked, and what is built on the mark needs nothing else. -/
theorem mark {f : Place → Rule β}
    (h : ∀ start, (f start).Builds g (State.Marked g start) good') :
    (Rule.mark >>= f).Builds g base good' := by
  intro pre _ _ context s hof hs hpre
  have hfares := h s.token.start (fun t => pre t ∧ t.Marked g s.token.start) (fun _ => And.right)
    context s hof hs ⟨hpre, hs.marked⟩
  exact ⟨fun v heq => (hfares.value v heq).imp_right fun ht => ⟨ht.1, ht.2.1⟩, hfares.error⟩

/-- A place is marked besides what else is needed. -/
theorem markToo {f : Place → Rule β}
    (h : ∀ start, (f start).Builds g (fun s => base s ∧ s.Marked g start) good') :
    (Rule.mark >>= f).Builds g base good' := by
  intro pre _ hbase context s hof hs hpre
  have hfares := h s.token.start (fun t => pre t ∧ t.Marked g s.token.start)
    (fun t ht => ⟨hbase t ht.1, ht.2⟩) context s hof hs ⟨hpre, hs.marked⟩
  exact ⟨fun v heq => (hfares.value v heq).imp_right fun ht => ⟨ht.1, ht.2.1⟩, hfares.error⟩

/-! ## Failing -/

/-- What blames a known token fails with a known error. -/
theorem blame {token : Token} (htoken : g.token token) (message : Message) (arguments : List String) :
    (Rule.blame token message arguments : Rule α).Builds g base good := by
  intro pre _ _ context s hof _ _
  refine ⟨nofun, fun error heq => ?_⟩
  obtain rfl := Except.error.inj heq
  rw [hof.source]
  exact g.blamed htoken message arguments

/-- A repetition at its bound fails with a known error. -/
theorem overrun : (Rule.overrun : Rule α).Builds g base good :=
  fun _ _ _ _ _ hof hs _ => ⟨nofun, fun _ heq => Except.error.inj heq ▸ hof.overrun hs.token⟩

/-- The current token is refused with a known error. -/
theorem refuse : (Rule.refuse : Rule α).Builds g base good :=
  .current fun _ htoken => .ite (fun _ => .blame htoken _ _) fun _ => .blame htoken _ _

/-- What is asked for in place of the current token is a known error. -/
theorem demand (wanted : String) : (Rule.demand wanted : Rule α).Builds g base good :=
  .current fun _ htoken => .blame htoken _ _

/-- A complaint about the current token is a known error. -/
theorem complain (message : Message) : (Rule.complain message : Rule α).Builds g base good :=
  .current fun _ htoken => .blame htoken _ _

/-! ## Taking tokens -/

/-- Behind a token that was taken all is still known. -/
theorem advance : Rule.advance.Builds g base fun _ => True := by
  intro pre _ _ context s hof hs hpre
  match hrun : Rule.advance context s with
  | (.ok (), t) =>
    exact ⟨fun _ _ => ⟨trivial, hs.advance hrun, Closed.advance hpre hrun⟩, nofun⟩
  | (.error error, t) =>
    have hending := ending_of_advance hrun
    exact ⟨nofun, fun _ heq => Except.error.inj heq ▸ hs.stocked.ending error hending⟩

/-- A token is taken since a place was marked. -/
theorem beginOn {f : Unit → Rule β} (hbase : ∀ s, base s → s.Marked g start)
    (h : (f ()).Builds g (fun s => base s ∧ s.Begun g start) good') :
    (Rule.advance >>= f).Builds g base good' := by
  intro pre _ hpre context s hof hs hpres
  match hrun : Rule.advance context s with
  | (.ok (), t) =>
    rw [bind_of_ok hrun]
    have hfares := h (fun t => pre t ∧ t.Begun g start) (fun t ht => ⟨hpre t ht.1, ht.2⟩) context t
      hof (hs.advance hrun) ⟨Closed.advance hpres hrun, (hbase s (hpre s hpres)).advance hrun⟩
    exact ⟨fun v heq => (hfares.value v heq).imp_right fun ht => ⟨ht.1, ht.2.1⟩, hfares.error⟩
  | (.error error, t) =>
    have hfares := advance pre hpre context s hof hs hpres
    rw [hrun] at hfares
    rw [bind_of_error hrun]
    exact ⟨nofun, fun _ heq => Except.error.inj heq ▸ hfares.error error rfl⟩

/-- Behind the first token since a place was marked something has begun there. -/
theorem begin {f : Unit → Rule β} (h : (f ()).Builds g (State.Begun g start) good') :
    (Rule.advance >>= f).Builds g (State.Marked g start) good' :=
  .beginOn (fun _ => id) (h.on fun _ => And.right)

/-- A rule builds on a ground whether a token is consumed or not. -/
theorem consume {terminal : Terminal} {f : Bool → Rule β} (hyes : (f true).Builds g base good')
    (hno : (f false).Builds g base good') : (Rule.consume terminal >>= f).Builds g base good' := by
  rw [Rule.consume, bind_assoc]
  refine .at? (fun _ => ?_) hno
  exact Rule.bind_assoc f ▸ advance.bind fun _ _ => hyes

/-- A token may be taken since a place was marked. -/
theorem consumeBegin {terminal : Terminal} {f : Bool → Rule β}
    (hyes : (∀ feature ∈ terminal.value.feature?, g.demands.feature feature) →
      (f true).Builds g (State.Begun g start) good')
    (hno : (f false).Builds g (State.Marked g start) good') :
    (Rule.consume terminal >>= f).Builds g (State.Marked g start) good' := by
  rw [Rule.consume, bind_assoc]
  refine .at? (fun hfeature => ?_) hno
  exact Rule.bind_assoc f ▸ .begin (hyes hfeature)

/-- A token that is expected is taken, or blamed for what stands there. -/
theorem expect (terminal : Terminal) : (Rule.expect terminal).Builds g base fun _ => True :=
  .current fun _ htoken => .ite (fun _ => .advance) fun _ => .blame htoken _ _

/-! ## Books -/

/-- Books are kept, and nothing else is changed. -/
theorem put {change : State → State}
    (h : ∀ s, s.Grounded g → ∃ scope log jumps, change s = s.put scope log jumps ∧
      (change s).Grounded g) : (Rule.modify change).Builds g base fun _ => True := by
  intro pre _ _ context s _ hs hpre
  obtain ⟨scope, log, jumps, heq, hgrounded⟩ := h s hs
  refine ⟨fun _ _ => ⟨trivial, hgrounded, ?_⟩, nofun⟩
  show pre (change s)
  rw [heq]
  exact Closed.put hpre scope log jumps

theorem tell (event : Event) : (Rule.tell event).Builds g base fun _ => True :=
  .put fun s hs => ⟨s.scope, event :: s.log, s.jumps, rfl, hs.put _ hs.scope hs.jumps⟩

theorem complete (node : Node) : (Rule.complete node).Builds g base fun _ => True := .tell _

/-- An expression that is completed is as known as before. -/
theorem completed {expression : Expression} (h : expression.Meets g.demands) :
    (Rule.completed expression).Builds g base fun v => v.Meets g.demands :=
  (complete _).bind fun _ _ => .give h

/-- A node is placed from the token where it began to the one taken last. -/
theorem placed : (Rule.placed start).Builds g (State.Begun g start) g.demands.placement := by
  refine .context fun context hof => .read fun s hs hbegun => .give ?_
  obtain ⟨token, htoken, rfl⟩ := hbegun.first
  rw [hof.options, hof.source, Nat.max_eq_left hbegun.le]
  exact g.placement htoken hbegun.previous hbegun.le

/-! ## Repetition -/

/-- A repetition gives known items if every turn does. -/
theorem repeated {turn : Rule (Turn α)}
    (h : turn.Builds g base fun v => ∀ item ∈ v.items, good item) :
    (Rule.repeated turn).Builds g base fun items => ∀ item ∈ items, good item := by
  have hturns (fuel : Nat) :
      (turns turn fuel).Builds g base fun items => ∀ item ∈ items, good item := by
    induction fuel with
    | zero => exact .overrun
    | succ fuel ih =>
      refine h.bind fun v hv => ?_
      match v with
      | .stop => exact .give (List.forall_mem_nil _)
      | .last item => exact .give hv
      | .more item =>
        have hitem : good item := hv item List.mem_cons_self
        exact ih.bind fun items hitems => .give (List.forall_mem_cons.mpr ⟨hitem, hitems⟩)
  exact .context fun context _ => hturns context.turns

/-- A row gives known items if the rule for one does. -/
theorem many {item : Rule (Option α)} (h : item.Builds g base fun v => ∀ a ∈ v, good a) :
    (Rule.many item).Builds g base fun items => ∀ item ∈ items, good item := by
  refine repeated (h.bind fun v hv => ?_)
  cases v with
  | none => exact .give (List.forall_mem_nil _)
  | some a => exact .give (List.forall_mem_singleton.mpr (hv a rfl))

/-- Steps lead from a known value to known ones. -/
theorem iterated (good : α → Prop) {step : α → Rule (Option α)} {value : α} (hvalue : good value)
    (h : ∀ value, good value → (step value).Builds g base fun v => ∀ a ∈ v, good a) :
    (Rule.iterated step value).Builds g base good := by
  have hsteps (fuel : Nat) : ∀ value, good value → (steps step fuel value).Builds g base good := by
    induction fuel with
    | zero => exact fun _ _ => .overrun
    | succ fuel ih =>
      refine fun value hvalue => (h value hvalue).bind fun v hv => ?_
      cases v with
      | none => exact .give hvalue
      | some next => exact ih next (hv next rfl)
  exact .context fun context _ => hsteps context.turns value hvalue

/-! ## Rules that take a token -/

/-- What is given of some kind takes a token. -/
theorem counted (kind : α → Prop) (h : r.Builds g (State.Marked g start) good)
    (htakes : ∀ context (s : State) v s', r context s = (.ok v, s') → kind v → s.taken < s'.taken)
    (hno : ∀ v, good v → ¬ kind v → (f v).Builds g (State.Marked g start) good')
    (hyes : ∀ v, good v → kind v → (f v).Builds g (State.Begun g start) good') :
    (r >>= f).Builds g (State.Marked g start) good' := by
  intro pre _ hbase context s hof hs hpre
  have hmarked : s.MarkedAt g start s.taken := ⟨hbase s hpre, fun h => absurd h (Nat.lt_irrefl _)⟩
  have hr := h (fun t => pre t ∧ t.MarkedAt g start s.taken) (fun t ht => ht.2.1) context s hof hs
    ⟨hpre, hmarked⟩
  match hrun : r context s with
  | (.error error, t) =>
    rw [hrun] at hr
    rw [bind_of_error hrun]
    exact ⟨nofun, fun _ heq => Except.error.inj heq ▸ hr.error error rfl⟩
  | (.ok v, t) =>
    rw [hrun] at hr
    obtain ⟨hv, ht, hpre, -, hbegun⟩ := hr.value v rfl
    rw [bind_of_ok hrun]
    by_cases hkind : kind v
    · have hfares := hyes v hv hkind (fun t => pre t ∧ t.Begun g start) (fun _ => And.right) context t
        hof ht ⟨hpre, hbegun (htakes context s v t hrun hkind)⟩
      exact ⟨fun v heq => (hfares.value v heq).imp_right fun ht => ⟨ht.1, ht.2.1⟩, hfares.error⟩
    · exact hno v hv hkind pre hbase context t hof ht hpre

/-- What comes behind may ask whether a token was taken. -/
theorem countedToo (kind : α → Prop) (h : r.Builds g (State.Marked g start) good)
    (htakes : ∀ context (s : State) v s', r context s = (.ok v, s') → kind v → s.taken < s'.taken)
    (hf : ∀ v, good v →
      (f v).Builds g (fun s => s.Marked g start ∧ (kind v → s.Begun g start)) good') :
    (r >>= f).Builds g (State.Marked g start) good' :=
  h.counted kind htakes (fun v hv hkind => (hf v hv).on fun _ hs => ⟨hs, fun h => absurd h hkind⟩)
    fun v hv _ => (hf v hv).on fun _ hs => ⟨hs.toMarked, fun _ => hs⟩

/-- A rule that always takes a token. -/
theorem take (h : r.Builds g (State.Marked g start) good) (htakes : r.Takes)
    (hf : ∀ v, good v → (f v).Builds g (State.Begun g start) good') :
    (r >>= f).Builds g (State.Marked g start) good' := by
  refine h.counted (fun _ => True) (fun context s v s' hrun _ => ?_)
    (fun _ _ hno => absurd trivial hno) fun v hv _ => hf v hv
  exact htakes s.taken context s v s' (Nat.le_refl _) hrun

/-- What may be missing takes a token if it is there. -/
theorem find {item : Rule (Option α)} {f : Option α → Rule β}
    (h : item.Builds g (State.Marked g start) fun v => ∀ a ∈ v, good a) (hadvances : item.ItemAdvances)
    (hnone : (f none).Builds g (State.Marked g start) good')
    (hsome : ∀ a, good a → (f (Option.some a)).Builds g (State.Begun g start) good') :
    (item >>= f).Builds g (State.Marked g start) good' := by
  refine h.counted (fun v => v ≠ none) (fun context s v s' hrun hv => ?_)
    (fun v _ hv => not_not.mp hv ▸ hnone) fun v hgood hv => ?_
  · obtain ⟨a, rfl⟩ := Option.ne_none_iff_exists'.mp hv
    exact hadvances context s a s' hrun
  · obtain ⟨a, rfl⟩ := Option.ne_none_iff_exists'.mp hv
    exact hsome a (hgood a rfl)

end Rule.Builds

end LuaSyntax.Grammar
