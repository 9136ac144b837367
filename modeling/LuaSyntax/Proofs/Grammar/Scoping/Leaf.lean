import LuaSyntax.Grammar.Leaf
import LuaSyntax.Proofs.Grammar.Leads
import LuaSyntax.Proofs.Tree.Resolved

/-!
# Scopes of a parse and environments of a tree

Where a parse stands, the open frames hold what is in force there, and the record of globals holds
the free names of what was read. A rule resolves what it reads if it leaves the frames as they were,
gives a thing whose names say what the frames have in force, and notes the free names of the thing.
-/

namespace LuaSyntax

instance {α : Type} [Resolving α] : Resolving (Grammar.Turn α) :=
  ⟨fun env turn => Resolved env turn.items, fun turn => free turn.items⟩

namespace Grammar

open Rule

/-- What some open frames have in force. -/
def visible : List (List Binding) → Environment
  | [] => .empty
  | frame :: frames => (visible frames).declare frame

/-- What is added to the innermost frame comes into view behind what was in it. -/
theorem visible_append (frame bindings : List Binding) (frames : List (List Binding)) :
    visible ((frame ++ bindings) :: frames) = (visible (frame :: frames)).declare bindings :=
  Environment.declare_append _ _ _

/-- A scope looks a name up as lexical scoping does. -/
theorem isVisible_eq (frames : List (List Binding)) (known : List Identifier) (name : String) :
    Scope.isVisible { enabled := true, frames, unresolved := known } name = visible frames name := by
  induction frames with
  | nil => rfl
  | cons frame frames ih => exact congrArg (_ || ·) ih

/-- A state with some open frames and some names known as globals. -/
def State.Scoped (frames : List (List Binding)) (known : List Identifier) (s : State) : Prop :=
  s.scope = { enabled := true, frames, unresolved := known }

variable {α β : Type} {frames : List (List Binding)} {frame : List Binding}
  {known noting : List Identifier}

/-- A state behind something that was read where some frames were open. -/
def State.Behind [Resolving α] (frames : List (List Binding)) (known : List Identifier) (v : α)
    (s : State) : Prop :=
  Resolved (visible frames) v ∧ s.Scoped frames (noted known (free v))

/-! ## Rules that resolve what they read -/

namespace Rule

variable {r : Rule α} {f : α → Rule β} {post : β → State → Prop}

/-- A rule that leaves the scope alone. -/
def Unscoped (r : Rule α) : Prop := ∀ scope, r.Keeps fun s => s.scope = scope

/-- A rule that resolves what it reads. -/
def Resolves [Resolving α] (r : Rule α) : Prop :=
  ∀ frames known, r.Leads (State.Scoped frames known) (State.Behind frames known)

namespace Unscoped

/-- A rule that leaves the scope alone leads to where the next goes on. -/
theorem leads (h : r.Unscoped) (hf : ∀ v, (f v).Leads (State.Scoped frames known) post) :
    (r >>= f).Leads (State.Scoped frames known) post := (h _).bind hf

/-- Rules that leave the scope alone do so one behind the other. -/
theorem bind (h : r.Unscoped) (hf : ∀ v, (f v).Unscoped) : (r >>= f).Unscoped := fun scope =>
  (h scope).bind fun v => hf v scope

/-- What reads nothing leaves the scope alone. -/
theorem give (v : α) : (pure v : Rule α).Unscoped := fun _ => .give fun _ hs => hs

/-- A choice leaves the scope alone if both rules do. -/
theorem ite {c : Bool} {q : Rule α} (h : r.Unscoped) (hq : q.Unscoped) :
    (if c = true then r else q).Unscoped := fun scope => .ite (fun _ => h scope) fun _ => hq scope

/-- A row of items leaves the scope alone if an item does. -/
theorem many {item : Rule (Option α)} (h : item.Unscoped) : (Rule.many item).Unscoped :=
  fun scope => Leads.many (I := fun _ s => s.scope = scope) fun _ => h scope

end Unscoped

namespace Leads

/-- Behind something that was read, it is known to be resolved. -/
theorem behind [Resolving α] {q : Rule β} {v : α}
    (h : Resolved (visible frames) v →
      q.Leads (State.Scoped frames (noted known (free v))) post) :
    q.Leads (State.Behind frames known v) post := of_known h

/-- A thing is given that is resolved and whose free names are noted. -/
theorem resolved [Resolving α] {v : α} (hv : Resolved (visible frames) v)
    (hfree : noted known (free v) = noting) :
    (pure v : Rule α).Leads (State.Scoped frames noting) (State.Behind frames known) :=
  give fun _ hs => ⟨hv, hfree ▸ hs⟩

/-- A rule that may come between two others. -/
theorem branch {c : Bool} {pre : State → Prop} {q : Rule β} (mid : State → Prop)
    (ht : c = true → r.Leads pre fun _ => mid)
    (hf : c = false → ∀ s, pre s → mid s) (hq : q.Leads mid post) :
    (if c = true then r >>= fun _ => q else q).Leads pre post :=
  ite (fun hc => (ht hc).bind fun _ => hq) fun hc => hq.mono (hf hc) fun _ _ hs => hs

/-- A turn is given whose item is resolved. -/
theorem turn [Resolving α] {v : α} {given : Turn α} (hgiven : given.items = [v])
    (hv : Resolved (visible frames) v) (hfree : noted known (free v) = noting) :
    (pure given : Rule (Turn α)).Leads (State.Scoped frames noting) (State.Behind frames known) := by
  have hitems : Resolved (visible frames) given.items := hgiven ▸ resolved_singleton hv
  have hnames : free given = free v := (congrArg free hgiven).trans (free_singleton v)
  exact resolved hitems (hnames ▸ hfree)

/-- What is refused leads anywhere, since it fails. -/
theorem refuse {pre : State → Prop} {q : α → State → Prop} : (Rule.refuse : Rule α).Leads pre q :=
  of_fails (.behind fun token => by
    cases token.isEnd
    · exact fun _ _ => ⟨_, _, rfl⟩
    · exact fun _ _ => ⟨_, _, rfl⟩)

/-- Nothing comes behind what is refused. -/
theorem refuse_bind {pre : State → Prop} : ((Rule.refuse : Rule α) >>= f).Leads pre post :=
  (refuse (q := fun _ _ => False)).bind fun _ _ _ _ _ hs => hs.elim

/-- What is demanded leads anywhere, since it fails. -/
theorem demand {pre : State → Prop} {q : α → State → Prop} (wanted : String) :
    (Rule.demand wanted : Rule α).Leads pre q :=
  of_fails fun _ _ => ⟨_, _, rfl⟩

/-- What is blamed leads anywhere, since it fails. -/
theorem blame {pre : State → Prop} {q : α → State → Prop} (token : Token) (message : Message)
    (arguments : List String) : (Rule.blame token message arguments : Rule α).Leads pre q :=
  of_fails fun _ _ => ⟨_, _, rfl⟩

/-- A complaint leads anywhere, since it fails. -/
theorem complain {pre : State → Prop} {q : α → State → Prop} (message : Message) :
    (Rule.complain message : Rule α).Leads pre q :=
  of_fails fun _ _ => ⟨_, _, rfl⟩

end Leads

namespace Resolves

/-- What resolves its value leads to where its free names are noted. -/
theorem leads [Resolving α] (h : r.Resolves)
    (hf : ∀ v, Resolved (visible frames) v →
      (f v).Leads (State.Scoped frames (noted known (free v))) post) :
    (r >>= f).Leads (State.Scoped frames known) post := (h frames known).bindKnown hf

/-- Items that are resolved one by one are resolved together. -/
theorem behind_items [Resolving α] {rows : β → List α} {q : Rule β} {items : List α}
    (h : ∀ frames known, q.Leads (State.Scoped frames known) fun v =>
      State.Behind frames known (rows v)) :
    q.Leads (State.Behind frames known items) fun v =>
      State.Behind frames known (items ++ rows v) := by
  apply Leads.behind
  intro hitems
  refine (h frames (noted known (free items))).mono (fun _ hs => hs) fun v s ⟨hv, hs⟩ => ?_
  refine ⟨resolved_append.mpr ⟨hitems, hv⟩, ?_⟩
  rwa [free_append, noted_append]

/-- A repetition resolves its items if a turn does. -/
theorem repeated [Resolving α] {turn : Rule (Turn α)} (h : turn.Resolves) :
    (Rule.repeated turn).Resolves := by
  intro frames known
  have hturns := Leads.repeated (I := State.Behind frames known) fun _ => behind_items h
  exact hturns.mono (fun _ hs => ⟨resolved_nil, hs⟩) fun _ _ hs => hs

/-- A row of items is resolved if an item is. -/
theorem many [Resolving α] {item : Rule (Option α)} (h : item.Resolves) :
    (Rule.many item).Resolves := by
  intro frames known
  have hitem (frames : List (List Binding)) (known : List Identifier) :
      item.Leads (State.Scoped frames known) fun v => State.Behind frames known v.toList :=
    (h frames known).mono (fun _ hs => hs) fun v s ⟨hv, hs⟩ =>
      ⟨resolved_toList.mpr hv, (free_toList v).symm ▸ hs⟩
  have hitems := Leads.many (I := State.Behind frames known) fun _ => behind_items hitem
  exact hitems.mono (fun _ hs => ⟨resolved_nil, hs⟩) fun _ _ hs => hs

end Resolves

/-! ## Rules that leave the scope alone -/

theorem unscoped_context : context.Unscoped := fun _ _ _ _ _ hs hrun => by cases hrun; exact hs

theorem unscoped_state : state.Unscoped := fun _ _ _ _ _ hs hrun => by cases hrun; exact hs

/-- What changes no scope leaves it alone. -/
theorem unscoped_modify {change : State → State} (h : ∀ s, (change s).scope = s.scope) :
    (modify change).Unscoped := by
  intro scope context s v s' hs hrun
  cases hrun
  exact (h s).trans hs

theorem unscoped_has (feature : Feature) : (has feature).Unscoped :=
  unscoped_context.bind fun _ => .give _

theorem unscoped_current : current.Unscoped := unscoped_state.bind fun _ => .give _

theorem unscoped_at? (terminal : Terminal) : (at? terminal).Unscoped :=
  unscoped_current.bind fun _ => .give _

/-- To take a token leaves the scope alone. -/
theorem unscoped_advance : advance.Unscoped := by
  intro scope context s v s' hs hrun
  obtain ⟨delivery, feed, -, rfl⟩ := advance_eq_ok.mp hrun
  exact hs

theorem unscoped_consume (terminal : Terminal) : (consume terminal).Unscoped :=
  (unscoped_at? terminal).bind fun _ => .ite (unscoped_advance.bind fun _ => .give _) (.give _)

theorem unscoped_expect (terminal : Terminal) : (expect terminal).Unscoped :=
  unscoped_current.bind fun _ => .ite unscoped_advance fun _ => .blame _ _ _

theorem unscoped_mark : mark.Unscoped := unscoped_current.bind fun _ => .give _

theorem unscoped_placed (start : Place) : (placed start).Unscoped :=
  unscoped_context.bind fun _ => unscoped_state.bind fun _ => .give _

theorem unscoped_tell (event : Event) : (tell event).Unscoped := unscoped_modify fun _ => rfl

theorem unscoped_complete (node : Node) : (complete node).Unscoped := unscoped_tell _

theorem unscoped_checked (result : Except JumpFault α) : (checked result).Unscoped := by
  cases result with
  | ok value => exact .give value
  | error fault => exact fun _ => .blame _ _ _

theorem unscoped_setJumps (jumps : Jumps) : (setJumps jumps).Unscoped := unscoped_modify fun _ => rfl

theorem unscoped_openBlock (isLoop : Bool) : (openBlock isLoop).Unscoped :=
  unscoped_state.bind fun _ => unscoped_setJumps _

theorem unscoped_closeBlock : closeBlock.Unscoped :=
  unscoped_state.bind fun _ => (unscoped_checked _).bind fun _ => unscoped_setJumps _

theorem unscoped_goOn : goOn.Unscoped := unscoped_state.bind fun _ => unscoped_checked _

theorem unscoped_recordLocal (name : String) : (recordLocal name).Unscoped :=
  unscoped_state.bind fun _ => unscoped_setJumps _

/-! ## Rules that keep the scopes -/

/-- A scope opens with an empty frame. -/
theorem openScope_leads : openScope.Leads (State.Scoped frames known) fun _ =>
    State.Scoped ([] :: frames) known := by
  intro context s v s' hs hrun
  unfold State.Scoped at hs ⊢
  simp only [openScope, state, modify, tell, Bind.bind, Pure.pure, andThen, hs, if_true] at hrun
  cases hrun
  rfl

/-- A scope that closes gives the names of its frame. -/
theorem closeScope_leads : closeScope.Leads (State.Scoped (frame :: frames) known) fun bindings s =>
    bindings = some frame ∧ s.Scoped frames known := by
  intro context s v s' hs hrun
  unfold State.Scoped at hs ⊢
  simp only [closeScope, state, modify, tell, Bind.bind, Pure.pure, andThen, give, hs, Scope.pop,
    if_true] at hrun
  cases hrun
  exact ⟨rfl, rfl⟩

/-- A name is declared in the innermost frame, behind those in it. -/
theorem declare_leads (name : Identifier) :
    (declare name).Leads (State.Scoped (frame :: frames) known) fun declared s =>
      declared = name.declared ∧ s.Scoped ((frame ++ [name.binding]) :: frames) known := by
  intro context s v s' hs hrun
  unfold State.Scoped at hs ⊢
  simp only [declare, state, modify, tell, Bind.bind, Pure.pure, andThen, give, hs, Scope.declare,
    Scope.bind, if_true] at hrun
  cases hrun
  exact ⟨rfl, rfl⟩

/-- Names are declared in their order. -/
theorem declareAll_leads (names : List Identifier) :
    (declareAll names).Leads (State.Scoped (frame :: frames) known) fun declared s =>
      declared = names.map Identifier.declared ∧
        s.Scoped ((frame ++ names.map Identifier.binding) :: frames) known := by
  induction names generalizing frame with
  | nil =>
    apply Leads.give
    intro s hs
    rw [List.map_nil, List.map_nil, List.append_nil]
    exact ⟨rfl, hs⟩
  | cons name rest ih =>
    refine (declare_leads name).bindKnown fun declared hdeclared => ?_
    refine ih.bindKnown fun others hothers => Leads.give fun s hs => ?_
    subst hdeclared hothers
    rw [List.append_assoc] at hs
    exact ⟨rfl, hs⟩

/-- A bare name is declared without a place. -/
theorem declareName_leads (name : String) :
    (declareName name).Leads (State.Scoped (frame :: frames) known) fun _ =>
      State.Scoped ((frame ++ [⟨name, none⟩]) :: frames) known := by
  intro context s v s' hs hrun
  unfold State.Scoped at hs ⊢
  simp only [declareName, state, modify, tell, Bind.bind, Pure.pure, andThen, hs,
    Scope.declareName, Scope.bind, if_true] at hrun
  cases hrun
  rfl

end Rule

/-! ## Names and literals -/

/-- A name that was just read is not said to be local. -/
theorem identifier_leads {scope : Scope} : identifier.Leads (fun s => s.scope = scope) fun name s =>
    name.erase .resolution = name ∧ s.scope = scope := by
  refine (unscoped_mark scope).bind fun start => (unscoped_current scope).bind fun token => ?_
  cases token.name? with
  | none => exact .demand _
  | some name =>
    refine (unscoped_advance scope).bind fun _ => (unscoped_placed start scope).bind fun _ => ?_
    exact (unscoped_complete _ scope).bind fun _ => .give fun _ hs => ⟨rfl, hs⟩

/-- A name is read before anything is known of it. -/
theorem unscoped_identifier : identifier.Unscoped := fun _ =>
  identifier_leads.mono (fun _ hs => hs) fun _ _ hs => hs.2

/-- A name that was read says nothing of what it is. -/
theorem leads_identifier {f : Identifier → Rule β} {post : β → State → Prop}
    (hf : ∀ name, name.erase .resolution = name →
      (f name).Leads (State.Scoped frames known) post) :
    (identifier >>= f).Leads (State.Scoped frames known) post := identifier_leads.bindKnown hf

/-- A name that is used is local if it is in force, and noted if it is not. -/
theorem resolve_scope {name : Identifier} (hname : name.erase .resolution = name) :
    let found := Scope.resolve { enabled := true, frames, unresolved := known } name
    Resolved (visible frames) (Expression.identifier found.2.1) ∧ found.2.2 =
      { enabled := true
        frames
        unresolved := noted known (free (Expression.identifier found.2.1)) } := by
  have hlocal : name.isLocal = false := (congrArg Identifier.isLocal hname).symm
  have hfree : free (Expression.identifier name) = [name] := by
    show (if name.isLocal = true then [] else [name]) = [name]
    rw [hlocal]
    rfl
  unfold Scope.resolve
  rw [if_pos rfl, isVisible_eq]
  by_cases hvisible : visible frames name.name = true
  · rw [if_pos hvisible]
    exact ⟨resolved_name hvisible, rfl⟩
  · have hresolved : visible frames name.name = name.isLocal := by
      rw [hlocal]
      exact eq_false_of_ne_true hvisible
    rw [if_neg hvisible]
    by_cases hknown : (known.any fun other => other.name == name.name) = true
    · have hnote : note known name = known := if_pos hknown
      rw [Scope.isUnresolved, if_pos hknown]
      refine ⟨resolved_name hresolved, ?_⟩
      rw [hfree, noted, List.foldl_cons, hnote]
      rfl
    · have hnote : note known name = known ++ [name] := if_neg hknown
      rw [Scope.isUnresolved, if_neg hknown]
      refine ⟨resolved_name hresolved, ?_⟩
      rw [hfree, noted, List.foldl_cons, hnote]
      rfl

/-- A name that is resolved is a local if it is in view, and is noted otherwise. -/
theorem resolved_leads : resolved.Leads (State.Scoped frames known) fun name =>
    State.Behind frames known (Expression.identifier name) := by
  refine identifier_leads.bindKnown fun name hname => ?_
  intro context s v s' hs hrun
  have hfound := @resolve_scope frames known name hname
  rw [← hs] at hfound
  cases hrun
  exact hfound

/-- A literal has no names. -/
theorem unscoped_literal : literal.Unscoped := by
  refine unscoped_mark.bind fun start => unscoped_current.bind fun token => ?_
  cases literalValue? token.value with
  | none => exact fun _ => .refuse
  | some value =>
    refine unscoped_advance.bind fun _ => (unscoped_placed start).bind fun _ => ?_
    exact (unscoped_complete _).bind fun _ => .give _

/-- A name that was just read is not said to be local, nor is its type. -/
theorem declarator_leads {scope : Scope} : declarator.Leads (fun s => s.scope = scope) fun name s =>
    name.erase .resolution = name ∧ s.scope = scope := by
  refine (unscoped_mark scope).bind fun start => ?_
  refine identifier_leads.bindKnown fun name hname => (unscoped_has _ scope).bind fun typed => ?_
  have hplain : (pure (.plain name) : Rule Declarator).Leads (fun s => s.scope = scope)
      fun name s => name.erase .resolution = name ∧ s.scope = scope :=
    .give fun _ hs => ⟨congrArg Declarator.plain hname, hs⟩
  refine (unscoped_at? _ scope).bind fun colon => .ite (fun _ => ?_) fun _ => hplain
  refine (unscoped_advance scope).bind fun _ => identifier_leads.bindKnown fun type htype => ?_
  refine (unscoped_placed start scope).bind fun placement => ?_
  refine (unscoped_complete _ scope).bind fun _ => .give fun _ hs => ⟨?_, hs⟩
  exact congrArg₂ (fun name type => Declarator.typed ⟨name, type, placement⟩) hname htype

/-! ## Expressions that are told -/

/-- What is resolved when it is told is given on. -/
theorem completed_leads {expression : Expression} (h : Resolved (visible frames) expression)
    (hfree : noted known (free expression) = noting) :
    (completed expression).Leads (State.Scoped frames noting) (State.Behind frames known) :=
  (unscoped_complete _).leads fun _ => .resolved h hfree

/-- The name of a member is not resolved; its base is. -/
theorem member_leads {base : Expression} (hbase : Resolved (visible frames) base)
    (indexer : Indexer) {name : Identifier} (start : Place) (hname : name.erase .resolution = name) :
    (member base indexer name start).Leads (State.Scoped frames (noted known (free base)))
      (State.Behind frames known) :=
  (unscoped_placed start).leads fun _ => completed_leads (resolved_member hbase indexer hname) rfl

end Grammar

end LuaSyntax
