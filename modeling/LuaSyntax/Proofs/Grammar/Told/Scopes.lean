import LuaSyntax.Proofs.Grammar.Depth.Levels
import LuaSyntax.Proofs.Grammar.Told.Statement
import LuaSyntax.Parse

/-!
# Scopes are told of in brackets

Who keeps the names that are declared between the beginning and the end of each scope, and has told of them
what an observer is told, finds in the end what the tree has: scopes are closed in the order in which the
blocks of the tree end, each with its own names. A parse that fails leaves scopes open, but never closes one
that it has not opened, and declares no name outside of them.
-/

namespace LuaSyntax

/-! ## Replays -/

/-- What the scope events so far amount to. -/
structure ScopeReplay where
  /-- The names in the open scopes, those of the innermost first. -/
  opened : List (List String) := []
  /-- The names in the scopes that were closed, in the order of their ends. -/
  closed : List (List String) := []
  deriving DecidableEq

namespace ScopeReplay

/-- One event more. A scope is closed, and a name declared, only if a scope is open. -/
def step (replay : ScopeReplay) : Event → Option ScopeReplay
  | .completed _ => some replay
  | .scopeOpened => some { replay with opened := [] :: replay.opened }
  | .scopeClosed =>
    match replay.opened with
    | [] => none
    | names :: outer => some { opened := outer, closed := replay.closed ++ [names] }
  | .declared name =>
    match replay.opened with
    | [] => none
    | names :: outer => some { replay with opened := (names ++ [name]) :: outer }

/-- Some events more. -/
def run (events : List Event) (replay : ScopeReplay) : Option ScopeReplay := events.foldlM step replay

/-- What is replayed in two parts is replayed together. -/
theorem run_append (first second : List Event) (replay : ScopeReplay) :
    run (first ++ second) replay = (run first replay).bind (run second) :=
  List.foldlM_append

/-- Nodes make no difference. -/
theorem run_completed (nodes : List Node) (replay : ScopeReplay) :
    run (nodes.map Event.completed) replay = some replay := by
  induction nodes with
  | nil => rfl
  | cons node rest ih => exact ih

end ScopeReplay

/-- Whether an event opens a scope. -/
def Event.opens : Event → Bool
  | .scopeOpened => true
  | _ => false

/-- Whether an event closes a scope. -/
def Event.closes : Event → Bool
  | .scopeClosed => true
  | _ => false

namespace ScopeReplay

variable {replay last : ScopeReplay} {events : List Event}

/-- As many scopes are open as were opened and not closed. -/
theorem length_run (h : run events replay = some last) :
    last.opened.length + events.countP Event.closes =
      replay.opened.length + events.countP Event.opens := by
  induction events generalizing replay with
  | nil =>
    obtain rfl := Option.some.inj h
    rfl
  | cons event rest ih =>
    obtain ⟨next, hstep, hrest⟩ := Option.bind_eq_some_iff.mp
      (show (step replay event).bind (run rest) = some last from h)
    have hlength := ih hrest
    rw [List.countP_cons, List.countP_cons]
    cases event with
    | completed node =>
      obtain rfl := Option.some.inj hstep
      exact hlength
    | scopeOpened =>
      obtain rfl := Option.some.inj hstep
      simp [Event.opens, Event.closes] at hlength ⊢
      omega
    | scopeClosed =>
      cases hopened : replay.opened with
      | nil =>
        rw [step, hopened] at hstep
        cases hstep
      | cons names outer =>
        rw [step, hopened] at hstep
        obtain rfl := Option.some.inj hstep
        simp [Event.opens, Event.closes] at hlength ⊢
        omega
    | declared name =>
      cases hopened : replay.opened with
      | nil =>
        rw [step, hopened] at hstep
        cases hstep
      | cons names outer =>
        rw [step, hopened] at hstep
        obtain rfl := Option.some.inj hstep
        simp [Event.opens, Event.closes] at hlength ⊢
        omega

/-- What begins a row of events that can be replayed can be replayed. -/
theorem run_before {first second : List Event} (h : run (first ++ second) replay = some last) :
    ∃ next, run first replay = some next ∧ run second next = some last := by
  rw [run_append] at h
  exact Option.bind_eq_some_iff.mp h

end ScopeReplay

/-! ## Open blocks -/

/-- Whether an item is the beginning of a block. -/
def Item.isOpened : Item → Bool
  | .opened => true
  | _ => false

/-- What is later known of a name does not open a scope. -/
theorem Item.isOpened_asRead (item : Item) : item.asRead.isOpened = item.isOpened := by
  cases item <;> rfl

/-- Items that were read alike open as many scopes. -/
theorem ReadAlike.countP_opened {items others : List Item} (h : ReadAlike items others) :
    items.countP Item.isOpened = others.countP Item.isOpened := by
  rw [← funext Item.isOpened_asRead]
  have := congrArg (List.countP Item.isOpened) h
  simpa [List.countP_map, Function.comp_def] using this

/-- The blocks in a complete node have come to their ends. -/
theorem Node.countP_opened (node : Node) : node.items.countP Item.isOpened = 0 := by
  refine List.countP_eq_zero.mpr fun item hmem => ?_
  rw [Node.items_eq, List.mem_append, List.mem_map, List.mem_map] at hmem
  obtain ⟨child, -, rfl⟩ | ⟨block, -, rfl⟩ := hmem <;> exact Bool.false_ne_true

namespace Grammar

open Rule

variable {context : Context} {origin s t : State} {items : List Item} {closed : List (List String)}

/-- The names in some frames. -/
def frameNames (frames : List (List Binding)) : List (List String) :=
  frames.map fun frame => frame.map Binding.name

/-- A state that knows as much of scopes as an observer who was told. -/
structure State.Replays (s : State) (closed : List (List String)) : Prop where
  enabled : s.scope.enabled = true
  replay : ScopeReplay.run s.log.reverse {} = some ⟨frameNames s.scope.frames, closed⟩

/-- What was told last is replayed last. -/
theorem run_told {log : List Event} {event : Event} {replay : ScopeReplay}
    (h : ScopeReplay.run log.reverse {} = some replay) :
    ScopeReplay.run (event :: log).reverse {} = replay.step event := by
  rw [List.reverse_cons, ScopeReplay.run_append, h]
  show (replay.step event).bind some = _
  cases replay.step event <;> rfl

/-- Taking a token does not change what scopes were replayed to. -/
theorem State.Replays.advance (h : s.Replays closed) (hrun : advance context s = (.ok (), t)) :
    t.Replays closed ∧ t.scope = s.scope := by
  obtain ⟨delivery, feed, -, rfl⟩ := advance_eq_ok.mp hrun
  refine ⟨⟨h.enabled, ?_⟩, rfl⟩
  rw [shift, List.reverse_append, List.reverse_reverse, ScopeReplay.run_append, h.replay]
  exact (congrArg (ScopeReplay.run · _) List.map_map.symm).trans (ScopeReplay.run_completed _ _)

/-- An opened scope is replayed to one more frame, which is empty. -/
theorem State.Replays.openScope (h : s.Replays closed) (hrun : openScope context s = (.ok (), t)) :
    t.Replays closed ∧ t.scope.frames = [] :: s.scope.frames := by
  rw [openScope_eq, if_pos h.enabled] at hrun
  obtain rfl := (Prod.mk.inj hrun).2
  exact ⟨⟨h.enabled, run_told h.replay⟩, rfl⟩

/-- A closed scope is replayed to its names, behind those of the scopes that were closed before. -/
theorem State.Replays.closeScope {scope : Option (List Binding)} (h : s.Replays closed)
    {frame : List Binding} {outer : List (List Binding)} (hframes : s.scope.frames = frame :: outer)
    (hrun : closeScope context s = (.ok scope, t)) :
    t.Replays (closed ++ [frame.map Binding.name]) ∧ t.scope.frames = outer ∧ scope = some frame := by
  rw [closeScope_eq, if_pos h.enabled, Scope.pop, if_pos h.enabled, hframes] at hrun
  obtain ⟨hscope, rfl⟩ := Prod.mk.inj hrun
  refine ⟨⟨h.enabled, ?_⟩, rfl, (Except.ok.inj hscope).symm⟩
  rw [run_told h.replay, hframes]
  rfl

/-- A declared name is replayed into the innermost frame. -/
theorem State.Replays.declared (h : s.Replays closed) (hframes : s.scope.frames ≠ [])
    (binding : Binding) : State.Replays
      { s with scope := s.scope.bind binding, log := .declared binding.name :: s.log } closed ∧
        (s.scope.bind binding).frames.length = s.scope.frames.length := by
  obtain ⟨frame, outer, heq⟩ := List.exists_cons_of_ne_nil hframes
  have hbind : s.scope.bind binding = { s.scope with frames := (frame ++ [binding]) :: outer } := by
    rw [Scope.bind, heq]
  refine ⟨⟨(s.scope.enabled_bind _).trans h.enabled, ?_⟩, ?_⟩
  · rw [run_told h.replay, heq, hbind]
    simp [ScopeReplay.step, frameNames]
  · rw [hbind, heq]
    rfl

/-- Where some frames were open, and none but those that were opened since were closed, some are open. -/
theorem frames_ne_nil {frames frames' : List (List Binding)} {count : Nat}
    (h : frames.length = frames'.length + count) (hopen : frames' ≠ []) : frames ≠ [] := by
  rintro rfl
  have := List.length_pos_iff.mpr hopen
  simp at h
  omega

/-- What was told of items are the scopes in them, and the scopes that were left open are open. -/
theorem Told.replays (h : Told context origin items s) (horigin : origin.Replays closed)
    (hopen : origin.scope.frames ≠ []) :
    s.Replays (closed ++ items.flatMap Item.scopes) ∧
      s.scope.frames.length = origin.scope.frames.length + items.countP Item.isOpened := by
  induction h generalizing closed with
  | nothing => exact ⟨(List.append_nil closed).symm ▸ horigin, rfl⟩
  | token _ _ hrun ih =>
    obtain ⟨hreplays, hlength⟩ := ih horigin hopen
    obtain ⟨hreplays', hscope⟩ := hreplays.advance hrun
    exact ⟨hreplays', hscope ▸ hlength⟩
  | jumps _ _ ih =>
    obtain ⟨⟨henabled, hreplay⟩, hlength⟩ := ih horigin hopen
    exact ⟨⟨henabled, hreplay⟩, hlength⟩
  | unresolved _ _ ih =>
    obtain ⟨⟨henabled, hreplay⟩, hlength⟩ := ih horigin hopen
    exact ⟨⟨henabled, hreplay⟩, hlength⟩
  | declared _ _ binding ih =>
    obtain ⟨hreplays, hlength⟩ := ih horigin hopen
    obtain ⟨hreplays', hlength'⟩ := hreplays.declared (frames_ne_nil hlength hopen) binding
    exact ⟨hreplays', hlength'.trans hlength⟩
  | opened _ hrun ih =>
    obtain ⟨hreplays, hlength⟩ := ih horigin hopen
    obtain ⟨hreplays', hframes⟩ := hreplays.openScope hrun
    refine ⟨?_, ?_⟩
    · rw [List.flatMap_append]
      exact (List.append_nil _).symm ▸ hreplays'
    · rw [hframes, List.length_cons, hlength, List.countP_append]
      rfl
  | @closed origin s t items inner scope _ hrun ih =>
    obtain ⟨hreplays, hlength⟩ := ih horigin hopen
    rw [List.countP_append, List.countP_cons] at hlength
    obtain ⟨frame, outer, hframes⟩ : ∃ frame outer, s.scope.frames = frame :: outer := by
      refine List.exists_cons_of_ne_nil fun hnil => ?_
      rw [hnil] at hlength
      simp [Item.isOpened] at hlength
    obtain ⟨hreplays', houter, rfl⟩ := hreplays.closeScope hframes hrun
    have hinner : (items ++ .opened :: inner).flatMap Item.scopes =
        (items ++ inner).flatMap Item.scopes := by
      rw [List.flatMap_append, List.flatMap_append]
      rfl
    refine ⟨?_, ?_⟩
    · rw [hinner, List.append_assoc] at hreplays'
      rw [List.flatMap_append]
      exact hreplays'
    · rw [hframes, List.length_cons] at hlength
      rw [houter, List.countP_append, List.countP_append]
      simp [Item.isOpened] at hlength ⊢
      omega
  | renamed _ halike ih =>
    obtain ⟨hreplays, hlength⟩ := ih horigin hopen
    exact ⟨halike.flatMap Item.scopes_asRead ▸ hreplays, halike.countP_opened ▸ hlength⟩
  | node _ _ _ _ _ ih ih' =>
    obtain ⟨hreplays, hlength⟩ := ih horigin hopen
    obtain ⟨⟨henabled, hreplay⟩, hlength'⟩ := ih' hreplays (frames_ne_nil hlength hopen)
    rw [Node.countP_opened] at hlength'
    refine ⟨⟨henabled, ?_⟩, ?_⟩
    · rw [run_told hreplay, List.append_assoc, ← Node.scopes_eq, List.flatMap_append,
        List.flatMap_singleton]
      rfl
    · rw [List.countP_append, ← Nat.add_assoc, ← hlength]
      exact hlength'

/-! ## Whole parses -/

/-- What was told of a parse can be replayed. Of an accepted feed the scopes that were closed are those of
the chunk, and none is open in the end. -/
theorem replay_of_run (options : ParseOptions) (source : Text) (feed : Feed)
    (htrack : options.trackScopes = true) :
    (∃ replay, ScopeReplay.run (run options source feed).events {} = some replay) ∧
      ∀ chunk, (run options source feed).result = .ok chunk →
        ScopeReplay.run (run options source feed).events {} = some ⟨[], (Node.chunk chunk).scopes⟩ ∧
        ∃ names, chunk.body.names = some names := by
  have hinitial : (State.initial options feed).Replays [] := ⟨htrack, rfl⟩
  rw [run_eq_levels, Outcome.of]
  rcases chunk_run nestingLimit (.ofFeed options source feed) (.initial options feed) with
    ⟨error, t, hrun, hfirst⟩ | ⟨t, u, hfirst, hsecond, hrun⟩
  · rw [hrun]
    refine ⟨?_, nofun⟩
    obtain rfl | hfirst := hfirst
    · exact ⟨_, hinitial.replay⟩
    · exact ⟨_, (hinitial.advance hfirst).1.replay⟩
  · obtain ⟨opened, hopen, hbody⟩ := chunkBody_run nestingLimit (.ofFeed options source feed) u
    rw [hrun]
    obtain ⟨hreplays₁, hscope₁⟩ := hinitial.advance hfirst
    obtain ⟨hreplays₂, hscope₂⟩ := hreplays₁.advance hsecond
    obtain ⟨hopened, hframes⟩ := hreplays₂.openScope hopen
    rw [hscope₂, hscope₁] at hframes
    have hnonempty : opened.scope.frames ≠ [] := hframes ▸ nofun
    generalize chunkBody (levels nestingLimit) (.ofFeed options source feed) u = outcome at hbody
    cases hbody with
    | inside htold => exact ⟨⟨_, (htold.replays hopened hnonempty).1.replay⟩, nofun⟩
    | behind htold hclose =>
      obtain ⟨hreplays, hlength⟩ := htold.replays hopened hnonempty
      obtain ⟨frame, outer, heq⟩ := List.exists_cons_of_ne_nil (frames_ne_nil hlength hnonempty)
      exact ⟨⟨_, (hreplays.closeScope heq hclose).1.replay⟩, nofun⟩
    | @whole chunk body t' u' v scope htold hclose _ hchunk _ _ hlog =>
      obtain ⟨hreplays, hlength⟩ := htold.replays hopened hnonempty
      have hbalanced : (body.map Statement.item).countP Item.isOpened = 0 := by
        refine List.countP_eq_zero.mpr fun item hmem => ?_
        obtain ⟨statement, -, rfl⟩ := List.mem_map.mp hmem
        exact Bool.false_ne_true
      rw [hframes, hbalanced] at hlength
      obtain ⟨frame, heq⟩ := List.length_eq_one_iff.mp hlength
      obtain ⟨hclosed, hnone, rfl⟩ := hreplays.closeScope heq hclose
      have hscopes : (Node.chunk chunk).scopes =
          (body.map Statement.item).flatMap Item.scopes ++ [frame.map Binding.name] := by
        rw [Node.scopes_eq, Node.items, hchunk, Block.items, List.flatMap_append]
        rfl
      have hreplay : ScopeReplay.run v.log.reverse {} = some ⟨[], (Node.chunk chunk).scopes⟩ := by
        rw [hlog, run_told hclosed.replay, hnone, hscopes]
        rfl
      refine ⟨⟨_, hreplay⟩, fun other hother => ?_⟩
      obtain rfl := Except.ok.inj hother
      exact ⟨hreplay, _, by rw [hchunk]; rfl⟩

end Grammar

/-- In every run with names resolved, whether the source is accepted or not, no more scopes were closed than
opened at any time, and names are declared only where a scope is open. Of an accepted source all scopes are
closed in the end, and to replay what was told gives the names that the blocks of the chunk have, in
post-order, those of the chunk last. -/
theorem scopes_well_bracketed (options : ParseOptions) (source : Text)
    (htrack : options.trackScopes = true) :
    (∀ before after, (parseWithEvents options source).events = before ++ after →
      before.countP Event.closes ≤ before.countP Event.opens) ∧
    (∀ before name after, (parseWithEvents options source).events = before ++ .declared name :: after →
      before.countP Event.closes < before.countP Event.opens) ∧
    ∀ chunk, parse options source = .ok chunk →
      (parseWithEvents options source).events.countP Event.closes =
        (parseWithEvents options source).events.countP Event.opens ∧
      ScopeReplay.run (parseWithEvents options source).events {} =
        some ⟨[], (Node.chunk chunk).postorder.filterMap Node.names?⟩ ∧
      ∃ inner names, chunk.body.names = some names ∧
        (Node.chunk chunk).postorder.filterMap Node.names? = inner ++ [names] := by
  obtain ⟨⟨replay, hreplay⟩, haccepted⟩ :=
    Grammar.replay_of_run options source (Lexer.feed options source) htrack
  refine ⟨fun before after heq => ?_, fun before name after heq => ?_, fun chunk hparse => ?_⟩
  · obtain ⟨next, hbefore, -⟩ :=
      ScopeReplay.run_before ((congrArg (ScopeReplay.run · {}) heq).symm.trans hreplay)
    have hlength : _ = 0 + _ := ScopeReplay.length_run hbefore
    omega
  · obtain ⟨next, hbefore, hafter⟩ :=
      ScopeReplay.run_before ((congrArg (ScopeReplay.run · {}) heq).symm.trans hreplay)
    have hlength : _ = 0 + _ := ScopeReplay.length_run hbefore
    have hopen : next.opened ≠ [] := by
      intro hnil
      obtain ⟨_, hstep, -⟩ := Option.bind_eq_some_iff.mp
        (show (next.step (.declared name)).bind (ScopeReplay.run after) = some replay from hafter)
      rw [ScopeReplay.step, hnil] at hstep
      cases hstep
    have := List.length_pos_iff.mpr hopen
    omega
  · obtain ⟨hclosed, names, hnames⟩ := haccepted chunk hparse
    have hlength := ScopeReplay.length_run hclosed
    refine ⟨Nat.add_left_cancel (show 0 + _ = 0 + _ from hlength), hclosed,
      (Node.chunk chunk).children.flatMap Node.scopes, names, hnames, ?_⟩
    rw [Node.postorder_eq, List.filterMap_append, List.filterMap_flatMap]
    exact congrArg _ (by rw [List.filterMap_cons, Node.names?, Node.block?, Option.bind_some, hnames]; rfl)

/-- A loop and a function in a function, a method, and a loop with a function in the condition behind it. -/
theorem scopes_well_bracketed_nested :
    ∃ chunk, parse { trackScopes := true } ("local function f(a) for i = a, 2 do local x = function() end end end "
        ++ "function t:m() end repeat local y until (function(z) return y end)()").toList = .ok chunk ∧
      (Node.chunk chunk).postorder.filterMap Node.names? =
        [[], ["i", "x"], ["a"], ["self"], ["z"], ["y"], ["f"]] := by
  generalize hsource : ("local function f(a) for i = a, 2 do local x = function() end end end "
    ++ "function t:m() end repeat local y until (function(z) return y end)()").toList = source
  have haccepted : (parse { trackScopes := true } source).toBool = true := by
    subst hsource
    decide +kernel
  have hreplay : (ScopeReplay.run (parseWithEvents { trackScopes := true } source).events {}).map
      ScopeReplay.closed = some [[], ["i", "x"], ["a"], ["self"], ["z"], ["y"], ["f"]] := by
    subst hsource
    decide +kernel
  obtain ⟨-, -, hbalanced⟩ := scopes_well_bracketed { trackScopes := true } source rfl
  cases hparse : parse { trackScopes := true } source with
  | error error =>
    rw [hparse] at haccepted
    cases haccepted
  | ok chunk =>
    obtain ⟨-, hrun, -⟩ := hbalanced chunk hparse
    rw [hrun] at hreplay
    exact ⟨chunk, rfl, Option.some.inj hreplay⟩

end LuaSyntax
