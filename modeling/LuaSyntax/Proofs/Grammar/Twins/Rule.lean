import LuaSyntax.Grammar.Bookkeeping
import LuaSyntax.Proofs.Grammar.Leads
import LuaSyntax.Proofs.Grammar.Twins.Books

/-!
# Two parses that keep different books

What is kept with a tree, and whether a `goto` must have a label that is visible from it, are choices that
decide nothing about what is read. `Twins` are two parses of the same tokens under different choices. They
come to akin trees, or they fail with the same error.

Only where the second parse checks gotos and the first does not, the second may fail alone. That happens
when the body of a function ends and a `goto` in it has found no label. The first parse goes on, and if it
succeeds then it has told an observer of the function. So it is said along with a rule what the first parse
has found, and the error of the second is known by that.

The first parse may be let go its own way: it may fail with certain errors, or tell an observer something by
which it is known that it has left the second behind. So a parse can be compared with one that may nest deeper,
and with one whose dialect knows less.
-/

namespace LuaSyntax.Grammar

open Rule

/-! ## Twins -/

/-- States in which a rule that looks further than to its token sees the same. -/
structure State.Agrees (s t : State) : Prop where
  previous : s.previous = t.previous
  lookahead : s.lookahead = t.lookahead
  allowsVararg : s.jumps.allowsVararg = t.jumps.allowsVararg
  isInLoop : s.jumps.isInLoop = t.jumps.isInLoop
  deferred : s.jumps.checkDeferred = t.jumps.checkDeferred

/-- The features that the grammar asks for, types behind declared names apart. -/
def grammatical : List Feature :=
  [.labels, .emptyStatement, .relaxedBreak, .flexibleLineEnd, .contextualGoto]

/-- Two parses of the same tokens. -/
structure Twins where
  left : Context
  right : Context
  /-- What need not be the same in what they keep. -/
  erasure : Erasure
  /-- With which errors the first may fail alone. -/
  excused : ParseError → Prop
  /-- What shows that the first has gone its own way. -/
  strays : Event → Prop

namespace Twins

variable {α β : Type} [Erasable α] [Erasable β]

/-- Whether both parses collect comments or neither does. -/
def Collect (T : Twins) : Prop := T.left.options.collectComments = T.right.options.collectComments

/-- Whether both parses resolve names or neither does. -/
def Track (T : Twins) : Prop := T.left.options.trackScopes = T.right.options.trackScopes

/-- States in which twins have come equally far. Nothing is known of the comments or the names of parses of
which one only keeps them. -/
structure Related (T : Twins) (s t : State) : Prop where
  feed : s.feed.bare = t.feed.bare
  coming : T.Collect → Akin T.erasure s.feed t.feed
  previous : s.previous = t.previous
  token : s.token = t.token
  lookahead : s.lookahead = t.lookahead
  comments : T.Collect → Akin T.erasure s.comments t.comments
  scope : T.Track → Akin T.erasure s.scope t.scope
  checks : s.jumps.checksTargets = T.left.options.checkGotoLabels
  jumps : t.jumps = { s.jumps with checksTargets := T.right.options.checkGotoLabels }

/-- In twins the states agree. -/
theorem Related.agrees {T : Twins} {s t : State} (h : T.Related s t) : s.Agrees t :=
  ⟨h.previous, h.lookahead, by rw [h.jumps], by rw [h.jumps]; rfl, by rw [h.jumps]; rfl⟩

/-- Twins whose choices make no difference but in what is erased, and in whether gotos are checked. -/
class Sound (T : Twins) : Prop where
  source : T.left.source = T.right.source
  turns : T.left.turns = T.right.turns
  overrun : T.left.overrun = T.right.overrun
  features : ∀ feature ∈ grammatical, T.left.options.has feature = T.right.options.has feature
  /-- A first parse that alone reads types goes its own way when it has read one. -/
  typed : T.left.options.has .typedIdentifiers = T.right.options.has .typedIdentifiers ∨
    T.right.options.has .typedIdentifiers = false ∧ (∀ error, T.excused error) ∧
      ∀ typed, T.strays (.completed (.typedIdentifier typed))
  forgets : ¬ T.Track → T.erasure.Forgets
  checks : T.left.options.checkGotoLabels = true → T.right.options.checkGotoLabels = true
  placement : ∀ start stop, Akin T.erasure (.between T.left.options T.left.source start stop : Placement)
    (.between T.right.options T.right.source start stop)
  scope : ∀ frame frame' : List Binding, Akin T.erasure frame frame' →
    T.erasure.scope (some frame) = T.erasure.scope (some frame')

/-- How the first parse may come out if it goes its own way. One that has told of it may fail as it likes. -/
structure Apart (T : Twins) {α : Type} (x : Except ParseError α × State) : Prop where
  failed : ∀ error s, x = (.error error, s) → T.excused error
  told : ∀ v s, x = (.ok v, s) → (∃ event ∈ s.log, T.strays event) ∧ ∀ error, T.excused error

/-- How a rule may come out in twins. If the second fails alone then what the first gives, or what it has
told of, is to guilty. -/
inductive Meet (T : Twins) (post : α → State → Prop) (guilty : α → ParseError → Prop) :
    Except ParseError α × State → Except ParseError α × State → Prop where
  | both {v w : α} {s t : State} : Akin T.erasure v w → T.Related s t → post v s →
      Meet T post guilty (.ok v, s) (.ok w, t)
  | failed {error : ParseError} {s t : State} : Meet T post guilty (.error error, s) (.error error, t)
  | alone {x : Except ParseError α × State} {error : ParseError} {t : State} :
      T.left.options.checkGotoLabels = false → T.right.options.checkGotoLabels = true →
      (∀ v s, x = (.ok v, s) → guilty v error ∨ T.left.BlamesTold error s.log) →
      Meet T post guilty x (.error error, t)
  | apart {x y : Except ParseError α × State} : T.Apart x → Meet T post guilty x y

/-- Values that are not to guilty. -/
def innocent (_ : α) (_ : ParseError) : Prop := False

end Twins

/-- A rule after which an observer has been told what he was told before it. -/
def Rule.Lasting {α : Type} (r : Rule α) : Prop := ∀ event, r.Keeps fun s => event ∈ s.log

namespace Rule.Lasting

variable {α β : Type} {r q : Rule α} {f : α → Rule β}

/-- Lasting rules one behind the other are lasting. -/
theorem bind (h : r.Lasting) (hf : ∀ v, (f v).Lasting) : (r >>= f).Lasting :=
  fun event => (h event).bind fun v => hf v event

/-- What reads nothing takes back nothing that was told. -/
theorem give (v : α) : (pure v : Rule α).Lasting := fun _ => .give fun _ hs => hs

/-- A choice takes back nothing if neither rule does. -/
theorem ite {c : Bool} (hr : r.Lasting) (hq : q.Lasting) : (if c = true then r else q).Lasting :=
  fun event => .ite (fun _ => hr event) fun _ => hq event

/-- A rule that fails takes back nothing. -/
theorem of_fails (h : r.Fails) : r.Lasting := fun _ => .of_fails h

/-- To look at a state takes back nothing. -/
theorem read {f : State → Rule α} (h : ∀ s, (f s).Lasting) : (Rule.state >>= f).Lasting :=
  fun event context s v s' hs hrun => h s event context s v s' hs hrun

/-- A rule that leaves what was told as it is. -/
theorem of_log (h : ∀ context s, (r context s).2.log = s.log) : r.Lasting := by
  intro event context s v s' hs hrun
  have hlog := h context s
  rw [hrun] at hlog
  exact hlog ▸ hs

end Rule.Lasting

namespace Twins

variable {T : Twins} {α β : Type} [Erasable α] [Erasable β]

/-- A first parse that has gone its own way does not come back. -/
theorem Apart.bind {α β : Type} {r : Rule α} {f : α → Rule β} {s : State} (h : T.Apart (r T.left s))
    (hf : ∀ v, (f v).Lasting) : T.Apart ((r >>= f) T.left s) := by
  match hx : r T.left s with
  | (.error error, s') =>
    rw [bind_of_error hx]
    constructor
    · rintro _ _ ⟨⟩
      exact h.failed error s' hx
    · rintro _ _ ⟨⟩
  | (.ok v, s') =>
    obtain ⟨⟨event, hmem, hstrays⟩, hexcused⟩ := h.told v s' hx
    rw [bind_of_ok hx]
    exact ⟨fun error _ _ => hexcused error,
      fun w t hrun => ⟨⟨event, hf v event T.left s' w t hmem hrun, hstrays⟩, hexcused⟩⟩

/-- What a rule does in twins: where it may begin and what holds then in the first parse. -/
structure Runs (T : Twins) (pre : State → Prop) (post : α → State → Prop) (guilty : α → ParseError → Prop)
    (r r' : Rule α) : Prop where
  lasting : r.Lasting
  meet : ∀ s t, T.Related s t → pre s → T.Meet post guilty (r T.left s) (r' T.right t)

/-- A rule that adds to what was found in the innermost block. -/
def Finds (T : Twins) (what : α → Findings) (guilty : α → ParseError → Prop) (r r' : Rule α) : Prop :=
  ∀ since found, T.Runs (State.Found since found)
    (fun v => State.Found since (found.also (what v))) guilty r r'

/-- A rule that finds neither gotos nor labels. -/
abbrev Stable (T : Twins) (r r' : Rule α) : Prop := T.Finds (fun _ => .nothing) innocent r r'

namespace Runs

variable {since : Jumps → Prop} {found : Findings} {pre : State → Prop} {post mid : α → State → Prop} {post' : β → State → Prop}
  {guilty : α → ParseError → Prop} {guilty' : β → ParseError → Prop} {r r' q q' : Rule α}
  {f g : α → Rule β}

/-- A rule whose value may be to guilty, and what comes behind it. -/
theorem behind (h : T.Runs pre mid guilty r r')
    (hf : ∀ v w, Akin T.erasure v w → T.Runs (mid v) post' guilty' (f v) (g w))
    (hblame : ∀ v error s u t, guilty v error → f v T.left s = (.ok u, t) →
      guilty' u error ∨ T.left.BlamesTold error t.log) :
    T.Runs pre post' guilty' (r >>= f) (r' >>= g) where
  lasting := h.lasting.bind fun v => (hf v v (.refl v)).lasting
  meet s t hst hpre := by
    have hmeet := h.meet s t hst hpre
    match hx : r T.left s, hy : r' T.right t with
    | (x, s'), (y, t') =>
      rw [hx, hy] at hmeet
      cases hmeet with
      | both hv hst' hmid =>
        rw [bind_of_ok hx, bind_of_ok hy]
        exact (hf _ _ hv).meet s' t' hst' hmid
      | failed =>
        rw [bind_of_error hx, bind_of_error hy]
        exact .failed
      | @alone _ error _ hl hr htold =>
        rw [bind_of_error hy]
        refine .alone hl hr fun u s'' hrun => ?_
        obtain ⟨v, s', hv, hrest⟩ := bind_eq_ok.mp hrun
        rcases htold v s' (hx.symm.trans hv) with hblamed | htold
        · exact hblame v error s' u s'' hblamed hrest
        · exact .inr (htold.mono fun event hmem =>
            (hf v v (.refl v)).lasting event T.left s' u s'' hmem hrest)
      | apart ha =>
        refine .apart (.bind ?_ fun v => (hf v v (.refl v)).lasting)
        rw [hx]
        exact ha

/-- One rule runs in twins to where the next goes on. -/
theorem bind (h : T.Runs pre mid innocent r r')
    (hf : ∀ v w, Akin T.erasure v w → T.Runs (mid v) post' guilty' (f v) (g w)) :
    T.Runs pre post' guilty' (r >>= f) (r' >>= g) :=
  h.behind hf fun _ _ _ _ _ hblamed _ => hblamed.elim

/-- A rule runs in twins from less and to more. -/
theorem mono {pre' : State → Prop} {post' : α → State → Prop} {guilty' : α → ParseError → Prop}
    (h : T.Runs pre post guilty r r') (hpre : ∀ s, pre' s → pre s) (hpost : ∀ v s, post v s → post' v s)
    (hblame : ∀ v error, guilty v error → guilty' v error) : T.Runs pre' post' guilty' r r' where
  lasting := h.lasting
  meet s t hst hpre' := by
    have hmeet := h.meet s t hst (hpre s hpre')
    match hx : r T.left s, hy : r' T.right t with
    | (x, s'), (y, t') =>
      rw [hx, hy] at hmeet
      cases hmeet with
      | both hv hst' hmid => exact .both hv hst' (hpost _ _ hmid)
      | failed => exact .failed
      | alone hl hr htold =>
        exact .alone hl hr fun v s heq => (htold v s heq).imp_left (hblame v _)
      | apart ha => exact .apart ha

/-- A rule needs no more than it says. -/
theorem weaken {pre' : State → Prop} (h : T.Runs pre post guilty r r') (hpre : ∀ s, pre' s → pre s) :
    T.Runs pre' post guilty r r' :=
  h.mono hpre (fun _ _ hs => hs) fun _ _ hv => hv

/-- What is known apart from the state may be made use of in the end. -/
theorem given {fact : Prop} (h : T.Runs pre (fun v s => fact → post v s) guilty r r') :
    T.Runs (fun s => pre s ∧ fact) post guilty r r' where
  lasting := h.lasting
  meet s t hst hpre := by
    have hfacts := h.mono (fun _ hs => hs) (fun _ _ hs => hs hpre.2) fun _ _ hv => hv
    exact hfacts.meet s t hst hpre.1

/-- Values that are akin may be given in twins. -/
theorem give {v w : α} (h : Akin T.erasure v w) (hpost : ∀ s, pre s → post v s) :
    T.Runs pre post guilty (pure v) (pure w) where
  lasting := .give v
  meet s _ hst hs := .both h hst (hpost s hs)

/-- Rules that do nothing but fail with the same error. -/
theorem of_fails (h : ∀ s t, T.Related s t → ∃ error, r T.left s = (.error error, s) ∧
    r' T.right t = (.error error, t)) (hlasting : r.Fails) : T.Runs pre post guilty r r' where
  lasting := .of_fails hlasting
  meet s t hst _ := by
    obtain ⟨error, hr, hr'⟩ := h s t hst
    rw [hr, hr']
    exact .failed

/-- A choice runs in twins if both rules do. -/
theorem ite {c : Bool} (ht : T.Runs pre post guilty r r') (hf : T.Runs pre post guilty q q') :
    T.Runs pre post guilty (if c = true then r else q) (if c = true then r' else q') := by
  cases c
  · exact hf
  · exact ht

/-- What a rule looks at in a state, and goes on with, if that is the same in twins. -/
theorem read {γ : Type} (what : State → γ) {f g : γ → Rule α}
    (heq : ∀ s t, T.Related s t → what s = what t)
    (h : ∀ seen, T.Runs (fun s => pre s ∧ what s = seen) post guilty (f seen) (g seen)) :
    T.Runs pre post guilty (Rule.state >>= fun s => f (what s)) (Rule.state >>= fun s => g (what s)) where
  lasting := .read fun s => (h (what s)).lasting
  meet s t hst hpre := by
    show T.Meet post guilty (f (what s) T.left s) (g (what t) T.right t)
    rw [← heq s t hst]
    exact (h (what s)).meet s t hst ⟨hpre, rfl⟩

/-- Twins stand at the same token. -/
theorem current {f g : Token → Rule α}
    (h : ∀ token, T.Runs (fun s => pre s ∧ s.token = token) post guilty (f token) (g token)) :
    T.Runs pre post guilty (Rule.current >>= f) (Rule.current >>= g) :=
  read State.token (fun _ _ hst => hst.token) h

/-- Twins mark the same place. -/
theorem mark {f g : Place → Rule α}
    (h : ∀ start, T.Runs (fun s => pre s ∧ s.token.start = start) post guilty (f start) (g start)) :
    T.Runs pre post guilty (Rule.mark >>= f) (Rule.mark >>= g) :=
  read (fun s => s.token.start) (fun _ _ hst => congrArg Token.start hst.token) h

/-- A rule for which it matters what a token is, but not where it is known from. -/
theorem glance {f g : Token → Rule α} (h : ∀ token, T.Runs pre post guilty (f token) (g token)) :
    T.Runs pre post guilty (Rule.current >>= f) (Rule.current >>= g) :=
  current fun token => (h token).weaken fun _ hs => hs.1

/-- Twins find a terminal or both do not. -/
theorem at? {terminal : Terminal} {f g : Bool → Rule α}
    (h : ∀ found, T.Runs pre post guilty (f found) (g found)) :
    T.Runs pre post guilty (Rule.at? terminal >>= f) (Rule.at? terminal >>= g) :=
  glance (f := fun token => f (token.value == terminal.value))
    (g := fun token => g (token.value == terminal.value)) fun _ => h _

/-- Twins take the same token. -/
theorem advance {post : Unit → State → Prop} (h : ∀ s delivery feed, pre s → post () (shift s delivery feed)) :
    T.Runs pre post innocent Rule.advance Rule.advance := by
  refine ⟨fun event context s v s' hs hrun => ?_, fun s t hst hs => ?_⟩
  · obtain ⟨delivery, feed, -, rfl⟩ := advance_eq_ok.mp hrun
    exact List.mem_append_right _ hs
  · have hbare := congrArg Feed.next hst.feed
    rw [Feed.next_bare, Feed.next_bare] at hbare
    have hnext (hcollect : T.Collect) := (hst.coming hcollect).next
    simp only [Rule.advance]
    cases hs' : s.feed.next with
    | error error =>
      cases ht' : t.feed.next with
      | error error' =>
        rw [hs', ht'] at hbare
        cases hbare
        exact .failed
      | ok => rw [hs', ht'] at hbare; cases hbare
    | ok found =>
      cases ht' : t.feed.next with
      | error => rw [hs', ht'] at hbare; cases hbare
      | ok found' =>
        rw [hs', ht'] at hbare hnext
        obtain ⟨hdelivery, hfeed⟩ := Prod.mk.inj (Except.ok.inj hbare)
        have htoken := congrArg Delivery.token hdelivery
        have hakin (hcollect : T.Collect) := akin_mk.mp (akin_ok.mp (hnext hcollect))
        exact .both rfl
          ⟨hfeed, fun hcollect => (hakin hcollect).2, hst.token, hst.lookahead, htoken,
            fun hcollect => (hst.comments hcollect).append (congrArg Delivery.comments (hakin hcollect).1),
            hst.scope, hst.checks, hst.jumps⟩
          (h s _ _ hs)

/-- Twins have the same features for the grammar. -/
theorem has [T.Sound] {feature : Feature} (hfeature : feature ∈ grammatical) {f g : Bool → Rule α}
    (h : ∀ found, T.Runs pre post guilty (f found) (g found)) :
    T.Runs pre post guilty (Rule.has feature >>= f) (Rule.has feature >>= g) where
  lasting := Lasting.bind (fun _ _ _ _ _ hs hrun => (Prod.mk.inj hrun).2 ▸ hs) fun v => (h v).lasting
  meet s t hst hpre := by
    show T.Meet post guilty (f (T.left.options.has feature) T.left s)
      (g (T.right.options.has feature) T.right t)
    rw [← Sound.features (T := T) feature hfeature]
    exact (h _).meet s t hst hpre

variable [T.Sound]

/-- A repetition has the same bound in twins. -/
theorem bounded {f g : Nat → Rule α} (h : ∀ fuel, T.Runs pre post guilty (f fuel) (g fuel)) :
    T.Runs pre post guilty (Rule.context >>= fun context => f context.turns)
      (Rule.context >>= fun context => g context.turns) where
  lasting event context := (h context.turns).lasting event context
  meet s t hst hpre := by
    show T.Meet post guilty (f T.left.turns T.left s) (g T.right.turns T.right t)
    rw [← Sound.turns (T := T)]
    exact (h T.left.turns).meet s t hst hpre

/-! ### Failing -/

/-- Twins blame a token with the same error. -/
theorem blame (token : Token) (message : Message) (arguments : List String) :
    T.Runs pre post guilty (Rule.blame token message arguments) (Rule.blame token message arguments) :=
  of_fails (fun s t _ => ⟨_, rfl, by rw [Sound.source (T := T)]; rfl⟩) fun _ s => ⟨_, s, rfl⟩

/-- Repetitions at their bounds fail with the same error in twins. -/
theorem overrun : T.Runs pre post guilty Rule.overrun Rule.overrun :=
  of_fails (fun s t hst => ⟨_, rfl, by rw [Sound.overrun (T := T), hst.token]; rfl⟩) fails_overrun

/-- Twins refuse a token with the same error. -/
theorem refuse : T.Runs pre post guilty Rule.refuse Rule.refuse :=
  .glance fun _ => .ite (.blame _ _ _) (.blame _ _ _)

/-- Twins demand the same with the same error. -/
theorem demand (wanted : String) : T.Runs pre post guilty (Rule.demand wanted) (Rule.demand wanted) :=
  .glance fun _ => .blame _ _ _

/-- Twins complain with the same error. -/
theorem complain (message : Message) :
    T.Runs pre post guilty (Rule.complain message) (Rule.complain message) :=
  .glance fun _ => .blame _ _ _

end Runs

namespace Finds

variable {what : α → Findings} {whole : β → Findings} {guilty : α → ParseError → Prop}
  {guilty' : β → ParseError → Prop} {post : β → State → Prop} {r r' q q' : Rule α} {f g : α → Rule β}
  {since : Jumps → Prop} {found : Findings}

/-- What was found before a rule does not matter to it. -/
theorem of_first (h : ∀ since : Jumps → Prop, T.Runs (State.Found since .nothing)
    (fun v => State.Found since (what v)) guilty r r') : T.Finds what guilty r r' := by
  refine fun since found => ⟨(h since).lasting, fun s t hst hs => ?_⟩
  have hruns : T.Runs (State.Found (· = s.jumps) .nothing)
      (fun v => State.Found since (found.also (what v))) guilty r r' :=
    (h _).mono (fun _ hs => hs) (fun v u hu => hs.also hu) fun _ _ hv => hv
  exact hruns.meet s t hst (.refl hs.coherent)

/-- What one rule finds is found before what the next does. -/
theorem bind (h : T.Finds what innocent r r') (hf : ∀ v w, Akin T.erasure v w →
    T.Runs (State.Found since (found.also (what v))) post guilty' (f v) (g w)) :
    T.Runs (State.Found since found) post guilty' (r >>= f) (r' >>= g) :=
  (h since found).bind hf

/-- What a rule looks at in a state, and goes on with. -/
theorem read {f g : State → Rule α} (h : ∀ s t, s.Agrees t → T.Finds what guilty (f s) (g t)) :
    T.Finds what guilty (Rule.state >>= f) (Rule.state >>= g) := by
  refine fun since found => ⟨.read fun s => ?_, fun s t hst hs => ?_⟩
  · exact (h s s ⟨rfl, rfl, rfl, rfl, rfl⟩ since found).lasting
  · exact (h s t hst.agrees since found).meet s t hst hs

/-! ### Repetition -/

/-- Turns find what their items hold, if that may be put together one item at a time. -/
theorem turns [T.Sound] {many : List α → Findings} {turn turn' : Rule (Turn α)}
    (h : T.Finds (fun v => many v.items) innocent turn turn')
    (hcons : ∀ item items, ((many [item]).also (many items)).Within (many (item :: items)))
    (fuel : Nat) : T.Finds many innocent (Rule.turns turn fuel) (Rule.turns turn' fuel) := by
  induction fuel with
  | zero => exact fun _ _ => .overrun
  | succ fuel ih =>
    refine fun since found => h.bind fun v w hvw => ?_
    cases v with
    | stop =>
      cases w with
      | stop => exact .give rfl fun _ hs => hs
      | last => cases hvw
      | more => cases hvw
    | last item =>
      cases w with
      | stop => cases hvw
      | last item' => exact .give (akin_cons.mpr ⟨akin_last.mp hvw, rfl⟩) fun _ hs => hs
      | more => cases hvw
    | more item =>
      cases w with
      | stop => cases hvw
      | last => cases hvw
      | more item' =>
        refine ih.bind fun items items' hitems => ?_
        refine .give (akin_cons.mpr ⟨akin_more.mp hvw, hitems⟩) fun s hs => hs.mono ?_
        exact Findings.also_assoc.trans (hcons item items).also

/-- A repetition finds what its items hold, if that may be put together one item at a time. -/
theorem repeated [T.Sound] {many : List α → Findings} {turn turn' : Rule (Turn α)}
    (h : T.Finds (fun v => many v.items) innocent turn turn')
    (hcons : ∀ item items, ((many [item]).also (many items)).Within (many (item :: items))) :
    T.Finds many innocent (Rule.repeated turn) (Rule.repeated turn') :=
  fun since found => .bounded fun fuel => h.turns hcons fuel since found

/-- A row of items finds what they hold, if that may be put together one item at a time. -/
theorem many [T.Sound] {all : List α → Findings} {item item' : Rule (Option α)}
    (h : T.Finds (fun v => all v.toList) innocent item item')
    (hcons : ∀ item items, ((all [item]).also (all items)).Within (all (item :: items))) :
    T.Finds all innocent (Rule.many item) (Rule.many item') := by
  refine repeated (fun since found => h.bind fun v w hvw => ?_) hcons
  cases v with
  | none =>
    cases w with
    | none => exact .give rfl fun _ hs => hs
    | some w => exact absurd hvw not_akin_none_some
  | some v =>
    cases w with
    | none => exact absurd hvw not_akin_some_none
    | some w => exact .give (akin_more.mpr (akin_some.mp hvw)) fun _ hs => hs

end Finds

namespace Stable

variable {post : β → State → Prop} {guilty : β → ParseError → Prop} {post' : α → State → Prop}
  {guilty' : α → ParseError → Prop} {r r' q q' : Rule α} {f g : α → Rule β} {since : Jumps → Prop}
  {found : Findings}

/-- A stable rule finds nothing. -/
theorem runs (h : T.Stable r r') :
    T.Runs (State.Found since found) (fun _ => State.Found since found) innocent r r' :=
  (h since found).mono (fun _ hs => hs) (fun _ _ hs => hs.mono Findings.also_nothing) fun _ _ hv => hv

/-- A rule that finds nothing wherever it stands is stable. -/
theorem of_runs (h : ∀ since found, T.Runs (State.Found since found)
    (fun _ => State.Found since found) innocent r r') : T.Stable r r' :=
  .of_first fun since => h since .nothing

/-- What was found is not changed by a rule that finds nothing. -/
theorem before (h : T.Stable r r') (hf : ∀ v w, Akin T.erasure v w →
    T.Runs (State.Found since found) post guilty (f v) (g w)) :
    T.Runs (State.Found since found) post guilty (r >>= f) (r' >>= g) :=
  h.runs.bind hf

/-- Stable rules one behind the other are stable. -/
theorem bind (h : T.Stable r r') (hf : ∀ v w, Akin T.erasure v w → T.Stable (f v) (g w)) :
    T.Stable (r >>= f) (r' >>= g) :=
  .of_runs fun _ _ => h.before fun v w hvw => (hf v w hvw).runs

/-- Values that are akin may be given. -/
theorem give {v w : α} (h : Akin T.erasure v w) : T.Stable (pure v) (pure w) :=
  .of_runs fun _ _ => .give h fun _ hs => hs

/-- A choice is stable if both rules are. -/
theorem ite {c : Bool} (ht : T.Stable r r') (hf : T.Stable q q') :
    T.Stable (if c = true then r else q) (if c = true then r' else q') :=
  .of_runs fun _ _ => .ite ht.runs hf.runs

/-- What may be missing is missing in both. -/
theorem bindOption {r r' : Rule (Option α)} {f g : Option α → Rule β} (h : T.Stable r r')
    (hnone : T.Stable (f none) (g none))
    (hsome : ∀ v w, Akin T.erasure v w → T.Stable (f (some v)) (g (some w))) :
    T.Stable (r >>= f) (r' >>= g) := by
  refine h.bind fun v w hvw => ?_
  cases v with
  | none =>
    cases w with
    | none => exact hnone
    | some w => exact absurd hvw not_akin_none_some
  | some v =>
    cases w with
    | none => exact absurd hvw not_akin_some_none
    | some w => exact hsome v w (akin_some.mp hvw)

/-- A rule that is only sometimes there, before another. -/
theorem branch {c : Bool} {q q' : Rule Unit} {f g : Unit → Rule α} (h : T.Stable q q')
    (hf : ∀ v, T.Runs (State.Found since found) post' guilty' (f v) (g v)) :
    T.Runs (State.Found since found) post' guilty' (if c = true then q >>= f else f ())
      (if c = true then q' >>= g else g ()) :=
  .ite (h.before fun v _ _ => hf v) (hf ())

/-! ### What a rule looks at -/

/-- A stable rule may look at the current token. -/
theorem current {f g : Token → Rule α} (h : ∀ token, T.Stable (f token) (g token)) :
    T.Stable (Rule.current >>= f) (Rule.current >>= g) :=
  .of_runs fun _ _ => .glance fun token => (h token).runs

/-- A stable rule may mark a place. -/
theorem mark {f g : Place → Rule α} (h : ∀ start, T.Stable (f start) (g start)) :
    T.Stable (Rule.mark >>= f) (Rule.mark >>= g) :=
  .of_runs fun _ _ => .mark fun start => (h start).runs.weaken fun _ hs => hs.1

/-- A stable rule may look for a terminal. -/
theorem at? {terminal : Terminal} {f g : Bool → Rule α} (h : ∀ found, T.Stable (f found) (g found)) :
    T.Stable (Rule.at? terminal >>= f) (Rule.at? terminal >>= g) :=
  .of_runs fun _ _ => .at? fun found => (h found).runs

/-- A stable rule may look at states that agree. -/
theorem read {f g : State → Rule α} (h : ∀ s t, s.Agrees t → T.Stable (f s) (g t)) :
    T.Stable (Rule.state >>= f) (Rule.state >>= g) := Finds.read h

/-- A stable rule may ask for a feature of the grammar. -/
theorem has [T.Sound] {feature : Feature} (hfeature : feature ∈ grammatical) {f g : Bool → Rule α}
    (h : ∀ found, T.Stable (f found) (g found)) :
    T.Stable (Rule.has feature >>= f) (Rule.has feature >>= g) :=
  .of_runs fun _ _ => .has hfeature fun found => (h found).runs

/-! ### Taking tokens -/

/-- To take a token finds nothing. -/
theorem advance : T.Stable Rule.advance Rule.advance :=
  .of_runs fun _ _ => .advance fun _ _ _ hs => hs

/-- To consume a token finds nothing. -/
theorem consumed (terminal : Terminal) : T.Stable (Rule.consume terminal) (Rule.consume terminal) :=
  .at? fun _ => .ite (advance.bind fun _ _ _ => .give rfl) (.give rfl)

/-- A token that may be there is taken. -/
theorem consume {terminal : Terminal} (hr : T.Stable r r') (hq : T.Stable q q') :
    T.Stable (Rule.consume terminal >>= fun found => if found = true then r else q)
      (Rule.consume terminal >>= fun found => if found = true then r' else q') := by
  refine (consumed terminal).bind fun found _ heq => ?_
  obtain rfl := akin_bool.mp heq
  exact .ite hr hq

variable [T.Sound]

/-! ### Failing -/

theorem blame (token : Token) (message : Message) (arguments : List String) :
    T.Stable (Rule.blame token message arguments : Rule α) (Rule.blame token message arguments) :=
  .of_runs fun _ _ => .blame token message arguments

theorem refuse : T.Stable (Rule.refuse : Rule α) Rule.refuse := .of_runs fun _ _ => .refuse

theorem demand (wanted : String) : T.Stable (Rule.demand wanted : Rule α) (Rule.demand wanted) :=
  .of_runs fun _ _ => .demand wanted

theorem complain (message : Message) :
    T.Stable (Rule.complain message : Rule α) (Rule.complain message) :=
  .of_runs fun _ _ => .complain message

/-- To expect a token finds nothing. -/
theorem expect (terminal : Terminal) : T.Stable (Rule.expect terminal) (Rule.expect terminal) :=
  .current fun _ => .ite .advance (.blame _ _ _)

/-! ### Repetition -/

/-- A repetition is stable if a turn is. -/
theorem repeated {turn turn' : Rule (Turn α)} (h : T.Stable turn turn') :
    T.Stable (Rule.repeated turn) (Rule.repeated turn') :=
  Finds.repeated h fun _ _ => Findings.also_nothing

/-- A row of items is stable if an item is. -/
theorem many {item item' : Rule (Option α)} (h : T.Stable item item') :
    T.Stable (Rule.many item) (Rule.many item') :=
  repeated (h.bindOption (.give rfl) fun _ _ hvw => .give (akin_more.mpr hvw))

/-- Steps from values that are akin are stable if each is. -/
theorem steps {step step' : α → Rule (Option α)}
    (h : ∀ value value', Akin T.erasure value value' → T.Stable (step value) (step' value')) (fuel : Nat)
    {value value' : α} (hvalue : Akin T.erasure value value') :
    T.Stable (Rule.steps step fuel value) (Rule.steps step' fuel value') := by
  induction fuel generalizing value value' with
  | zero => exact .of_runs fun _ _ => .overrun
  | succ fuel ih => exact (h value value' hvalue).bindOption (.give hvalue) fun _ _ hnext => ih hnext

/-- A repetition of steps from values that are akin is stable if each is. -/
theorem iterated {step step' : α → Rule (Option α)}
    (h : ∀ value value', Akin T.erasure value value' → T.Stable (step value) (step' value'))
    {value value' : α} (hvalue : Akin T.erasure value value') :
    T.Stable (Rule.iterated step value) (Rule.iterated step' value') :=
  .of_runs fun _ _ => .bounded fun fuel => (steps h fuel hvalue).runs

end Stable

/-- A token that may be there is taken. -/
theorem Runs.consume {terminal : Terminal} {post : α → State → Prop}
    {guilty : α → ParseError → Prop} {r r' q q' : Rule α} {since : Jumps → Prop} {found : Findings}
    (hr : T.Runs (State.Found since found) post guilty r r')
    (hq : T.Runs (State.Found since found) post guilty q q') :
    T.Runs (State.Found since found) post guilty
      (Rule.consume terminal >>= fun found => if found = true then r else q)
      (Rule.consume terminal >>= fun found => if found = true then r' else q') := by
  refine (Stable.consumed terminal).before fun found _ heq => ?_
  obtain rfl := akin_bool.mp heq
  exact .ite hr hq

end Twins

end LuaSyntax.Grammar
