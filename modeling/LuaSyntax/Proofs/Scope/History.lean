import Mathlib.Data.List.Induction
import LuaSyntax.Scope

/-!
# Scopes as a history of calls

Whoever drives a scope may call its operations in any order, close frames that were never opened and declare names where
no frame is open. What the scope answers can be told from the calls alone. Opening and closing a frame go together like
parentheses: `Declares` are the calls that leave the frame in which they are made as the innermost one, with what they
declare in it, and a frame is closed by the first call for which that is so up to there, as `Closes` says.

`calls_stacked` says what each operation answers after any calls: a name is visible exactly if it was declared in a frame
that is still open, closing a frame gives its declarations, and the names taken as global are the uses that failed since
names were taken last, the first one for each name.
-/

namespace LuaSyntax.Scope

/-- A call that may change a scope. -/
inductive Call where
  | push
  | pop
  | declare (identifier : Identifier)
  | declareName (name : String)
  | resolve (identifier : Identifier)
  | takeUnresolved

/-- The scope that a call leaves. -/
def step (scope : Scope) : Call → Scope
  | .push => scope.push
  | .pop => scope.pop.2
  | .declare identifier => (scope.declare identifier).2
  | .declareName name => scope.declareName name
  | .resolve identifier => (scope.resolve identifier).2.2
  | .takeUnresolved => scope.takeUnresolved.2

/-- The scope that some calls leave, if they begin with one that is switched on and empty. -/
def after (calls : List Call) : Scope := calls.foldl step { enabled := true }

/-! ## Histories -/

/-- What a call declares in the innermost frame. -/
def Call.binding? : Call → Option Binding
  | .declare identifier => some ⟨identifier.name, some { identifier with isLocal := true }⟩
  | .declareName name => some ⟨name, none⟩
  | _ => none

/-- Whether a call opens or closes a frame. -/
def Call.Moves : Call → Prop
  | .push | .pop => True
  | _ => False

/-- Calls behind which the frame in which they begin is innermost again, and what they declare in it. All frames that
they open they close. -/
inductive Declares : List Call → List Binding → Prop where
  | nothing : Declares [] []
  | call {call : Call} {calls : List Call} {bindings : List Binding} (hcall : ¬ call.Moves)
      (h : Declares calls bindings) : Declares (call :: calls) (call.binding?.toList ++ bindings)
  | frame {inside calls : List Call} {inner bindings : List Binding} (hinside : Declares inside inner)
      (h : Declares calls bindings) : Declares (.push :: inside ++ .pop :: calls) bindings

/-- Whether one of some calls closes the frame in which they begin. -/
def Closes (calls : List Call) : Prop :=
  ∃ inside inner behind, calls = inside ++ .pop :: behind ∧ Declares inside inner

/-- Whether a name was declared in a frame that is still open. -/
def InForce (calls : List Call) (name : String) : Prop :=
  ∃ before inside, calls = before ++ .push :: inside ∧ ¬ Closes inside ∧
    ∃ between bindings call behind, inside = between ++ call :: behind ∧ Declares between bindings ∧
      ∃ binding, call.binding? = some binding ∧ binding.name = name

/-- The uses among some calls, in order, for which no declaration was in force where they were made. -/
inductive Failing : List Call → List Call → List Identifier → Prop where
  | nothing {before : List Call} : Failing before [] []
  | failed {before calls : List Call} {identifier : Identifier} {failed : List Identifier}
      (hfree : ¬ InForce before identifier.name) (h : Failing (before ++ [.resolve identifier]) calls failed) :
      Failing before (.resolve identifier :: calls) (identifier :: failed)
  | found {before calls : List Call} {identifier : Identifier} {failed : List Identifier}
      (hbound : InForce before identifier.name) (h : Failing (before ++ [.resolve identifier]) calls failed) :
      Failing before (.resolve identifier :: calls) failed
  | other {before calls : List Call} {call : Call} {failed : List Identifier}
      (hcall : ∀ identifier, call ≠ .resolve identifier) (h : Failing (before ++ [call]) calls failed) :
      Failing before (call :: calls) failed

/-! ## Parentheses -/

section

variable {calls more inside behind : List Call} {bindings others inner : List Binding} {call : Call}

/-- What one history declares and what the next does is declared by both together. -/
theorem Declares.append (h : Declares calls bindings) (h' : Declares more others) :
    Declares (calls ++ more) (bindings ++ others) := by
  induction h with
  | nothing => exact h'
  | call hcall _ ih =>
    rw [List.cons_append, List.append_assoc]
    exact .call hcall ih
  | frame hinside _ _ ih =>
    rw [List.append_assoc, List.cons_append]
    exact .frame hinside ih

/-- A call that moves no scope declares what it binds. -/
theorem Declares.single (hcall : ¬ call.Moves) : Declares [call] call.binding?.toList := by
  have h := Declares.call hcall .nothing
  rwa [List.append_nil] at h

/-- A scope that is opened and closed declares nothing outside of it. -/
theorem Declares.enclosed (h : Declares inside inner) : Declares (.push :: inside ++ [.pop]) [] := .frame h .nothing

/-- How many more frames some calls open than they close. -/
def rise : List Call → Int
  | [] => 0
  | .push :: calls => rise calls + 1
  | .pop :: calls => rise calls - 1
  | _ :: calls => rise calls

/-- The rise of calls is that of their first part and of their second. -/
theorem rise_append (calls more : List Call) : rise (calls ++ more) = rise calls + rise more := by
  induction calls with
  | nil => simp [rise]
  | cons call calls ih => cases call <;> simp only [List.cons_append, rise, ih] <;> omega

/-- A call that moves no scope does not rise. -/
theorem rise_cons (hcall : ¬ call.Moves) (calls : List Call) : rise (call :: calls) = rise calls := by
  cases call with
  | push | pop => exact absurd trivial hcall
  | _ => rfl

/-- Calls that declare end where they began. -/
theorem Declares.rise_eq (h : Declares calls bindings) : rise calls = 0 := by
  induction h with
  | nothing => rfl
  | call hcall _ ih => rw [rise_cons hcall, ih]
  | frame _ _ ih ih' =>
    rw [rise_append, rise, rise, ih, ih']
    rfl

/-- The frame in which such calls begin stays open all the time. -/
theorem Declares.rise_nonneg (h : Declares calls bindings) {first rest : List Call} (hcalls : calls = first ++ rest) :
    0 ≤ rise first := by
  induction h generalizing first rest with
  | nothing =>
    obtain rfl := (List.nil_eq_append_iff.mp hcalls).1
    exact Int.le_refl _
  | call hcall _ ih =>
    rcases List.cons_eq_append_iff.mp hcalls with ⟨rfl, -⟩ | ⟨first, rfl, hfirst⟩
    · exact Int.le_refl _
    · rw [rise_cons hcall]
      exact ih hfirst
  | frame hinside _ ih ih' =>
    rcases List.cons_eq_append_iff.mp hcalls with ⟨rfl, -⟩ | ⟨first, rfl, hfirst⟩
    · exact Int.le_refl _
    -- The calls are cut in the frame, or behind it.
    rcases List.append_eq_append_iff.mp hfirst with ⟨between, rfl, hrest⟩ | ⟨between, hinner, -⟩
    · rcases List.cons_eq_append_iff.mp hrest with ⟨rfl, -⟩ | ⟨between, rfl, hbetween⟩
      · rw [List.append_nil, rise, hinside.rise_eq]
        decide
      · have hle := ih' hbetween
        rw [rise, rise_append, hinside.rise_eq, rise]
        omega
    · have hle := ih hinner
      rw [rise]
      omega

/-- Calls that declare close no scope they did not open. -/
theorem Declares.not_closes (h : Declares calls bindings) : ¬ Closes calls := by
  rintro ⟨inside, inner, behind, rfl, hinside⟩
  have hle := h.rise_nonneg (List.append_cons inside .pop behind)
  rw [rise_append, hinside.rise_eq] at hle
  exact absurd hle (by decide)

/-- Calls that close a scope still do when more follow. -/
theorem Closes.append (h : Closes calls) (more : List Call) : Closes (calls ++ more) := by
  obtain ⟨inside, inner, behind, rfl, hinside⟩ := h
  exact ⟨inside, inner, behind ++ more, by simp, hinside⟩

/-- Calls close a scope if they do behind others that declare. -/
theorem Declares.closes_append (h : Declares calls bindings) (h' : Closes more) : Closes (calls ++ more) := by
  obtain ⟨inside, inner, behind, rfl, hinside⟩ := h'
  exact ⟨calls ++ inside, _, behind, by simp, h.append hinside⟩

end

/-! ## Frames that are open -/

/-- Some calls of a kind, and behind them calls that leave frames open: what was declared in each of these frames, the
innermost first. -/
inductive Leaves (base : List Call → Prop) : List Call → List (List Binding) → Prop where
  | level {calls : List Call} (h : base calls) : Leaves base calls []
  | opened {calls inside : List Call} {frames : List (List Binding)} {inner : List Binding}
      (h : Leaves base calls frames) (hinside : Declares inside inner) :
      Leaves base (calls ++ .push :: inside) (inner :: frames)

section

variable {base : List Call → Prop} {calls more inside : List Call} {frames : List (List Binding)}
  {bindings others frame : List Binding} {call : Call} {scope : Scope} {name : String}

/-- One more call opens a frame, declares something in the innermost one or closes it. -/
theorem Leaves.step (hbase : ∀ calls more bindings, base calls → Declares more bindings → base (calls ++ more))
    (h : Leaves base calls frames) (call : Call) :
    (∃ frames', Leaves base (calls ++ [call]) frames') ∨ call = .pop ∧ base calls := by
  have hmore {frames : List (List Binding)} {calls more : List Call} {bindings : List Binding}
      (h : Leaves base calls frames) (hmore : Declares more bindings) :
      ∃ frames', Leaves base (calls ++ more) frames' := by
    cases h with
    | level h => exact ⟨_, .level (hbase _ _ _ h hmore)⟩
    | opened h hinside =>
      rw [List.append_assoc]
      exact ⟨_, .opened h (hinside.append hmore)⟩
  by_cases hcall : call.Moves
  · cases call with
    | push => exact .inl ⟨_, h.opened .nothing⟩
    | pop =>
      cases h with
      | level h => exact .inr ⟨rfl, h⟩
      | opened h hinside =>
        rw [List.append_assoc]
        exact .inl (hmore h hinside.enclosed)
    | _ => cases hcall
  · exact .inl (hmore h (.single hcall))

/-- Calls either close the frame in which they begin or leave it open. -/
theorem closes_or_leaves (calls : List Call) :
    Closes calls ∨ ∃ frames, Leaves (fun calls => ∃ bindings, Declares calls bindings) calls frames := by
  induction calls using List.reverseRecOn with
  | nil => exact .inr ⟨[], .level ⟨[], .nothing⟩⟩
  | append_singleton calls call ih =>
    rcases ih with hcloses | ⟨frames, hleaves⟩
    · exact .inl (hcloses.append _)
    rcases hleaves.step (fun _ _ _ ⟨_, h⟩ hmore => ⟨_, h.append hmore⟩) call with hopen | ⟨rfl, bindings, h⟩
    · exact .inr hopen
    · exact .inl ⟨calls, bindings, [], rfl, h⟩

/-- Calls that leave scopes open never fall below where they began. -/
theorem Leaves.rise_nonneg (h : Leaves (fun calls => ∃ bindings, Declares calls bindings) calls frames)
    {first rest : List Call} (hcalls : calls = first ++ rest) : 0 ≤ rise first := by
  induction h generalizing first rest with
  | level h =>
    obtain ⟨bindings, h⟩ := h
    exact h.rise_nonneg hcalls
  | opened _ hinside ih =>
    rcases List.append_eq_append_iff.mp hcalls with ⟨between, rfl, hrest⟩ | ⟨between, hfirst, -⟩
    · rcases List.cons_eq_append_iff.mp hrest with ⟨rfl, -⟩ | ⟨between, rfl, hbetween⟩
      · rw [List.append_nil]
        exact ih (List.append_nil _).symm
      · have houter := ih (List.append_nil _).symm
        have hinner := hinside.rise_nonneg hbetween
        rw [rise_append, rise]
        omega
    · exact ih hfirst

/-- Some calls close the frame in which they begin exactly if at some time they have closed more than they opened. -/
theorem closes_iff : Closes calls ↔ ∃ first rest, calls = first ++ rest ∧ rise first < 0 := by
  constructor
  · rintro ⟨inside, inner, behind, rfl, hinside⟩
    refine ⟨inside ++ [.pop], behind, List.append_cons .., ?_⟩
    rw [rise_append, hinside.rise_eq]
    decide
  · rintro ⟨first, rest, hcalls, hlt⟩
    refine (closes_or_leaves calls).resolve_right fun ⟨frames, hleaves⟩ => ?_
    have hle := hleaves.rise_nonneg hcalls
    omega

/-- A frame that is open stays open while others are opened inside of it. -/
theorem not_closes_opened (h : ¬ Closes calls) (hinside : Declares inside bindings) :
    ¬ Closes (calls ++ .push :: inside) := by
  rw [closes_iff] at h ⊢
  rintro ⟨first, rest, hcalls, hlt⟩
  rcases List.append_eq_append_iff.mp hcalls with ⟨between, rfl, hrest⟩ | ⟨between, hfirst, -⟩
  · have hcalls : 0 ≤ rise calls := by
      by_contra hneg
      exact h ⟨calls, [], (List.append_nil _).symm, by omega⟩
    rcases List.cons_eq_append_iff.mp hrest with ⟨rfl, -⟩ | ⟨between, rfl, hbetween⟩
    · rw [List.append_nil] at hlt
      omega
    · have hinner := hinside.rise_nonneg hbetween
      rw [rise_append, rise] at hlt
      omega
  · exact h ⟨first, between, hfirst, hlt⟩

/-! ## Steps -/

/-- To step through a call leaves scopes enabled. -/
theorem enabled_step (henabled : scope.enabled = true) (call : Call) : (scope.step call).enabled = true := by
  cases call <;> grind [step, push, pop, declare, declareName, Scope.bind, resolve, takeUnresolved]

/-- To step through calls leaves scopes enabled. -/
theorem enabled_steps (henabled : scope.enabled = true) (calls : List Call) :
    (calls.foldl step scope).enabled = true := by
  induction calls generalizing scope with
  | nil => exact henabled
  | cons call calls ih => exact ih (enabled_step henabled call)

/-- Scopes are enabled behind all calls. -/
theorem enabled_after (calls : List Call) : (after calls).enabled = true := enabled_steps rfl calls

/-- Calls are gone through one part behind the other. -/
theorem after_append (calls more : List Call) : after (calls ++ more) = more.foldl step (after calls) :=
  List.foldl_append

/-- A call that neither opens nor closes a frame adds what it declares to the innermost one. -/
theorem frames_step (hcall : ¬ call.Moves) (henabled : scope.enabled = true) {frames : List (List Binding)}
    (hframes : scope.frames = frame :: frames) :
    (scope.step call).frames = (frame ++ call.binding?.toList) :: frames := by
  cases call with
  | push | pop => exact absurd trivial hcall
  | declare identifier => simp only [step, declare, if_pos henabled, Scope.bind, hframes, Call.binding?, Option.toList_some]
  | declareName name => simp only [step, declareName, if_pos henabled, Scope.bind, hframes, Call.binding?, Option.toList_some]
  | resolve | takeUnresolved => grind [step, resolve, takeUnresolved, Call.binding?]

/-- Without a frame a call that moves no scope makes none. -/
theorem frames_step_nil (hcall : ¬ call.Moves) (hframes : scope.frames = []) : (scope.step call).frames = [] := by
  cases call with
  | push | pop => exact absurd trivial hcall
  | _ => grind [step, declare, declareName, Scope.bind, resolve, takeUnresolved]

/-- To push opens an empty frame. -/
theorem frames_push (henabled : scope.enabled = true) : (scope.step .push).frames = [] :: scope.frames := by
  rw [step, push, if_pos henabled]

/-- To pop closes the innermost frame. -/
theorem frames_pop (henabled : scope.enabled = true) {frames : List (List Binding)}
    (hframes : scope.frames = frame :: frames) : (scope.step .pop).frames = frames := by
  rw [step, pop, if_pos henabled, hframes]

/-- Without a frame there is none to pop. -/
theorem frames_pop_nil (hframes : scope.frames = []) : (scope.step .pop).frames = [] := by
  grind [step, pop]

/-! ## Runs -/

/-- What is declared in a frame is added to it in order. -/
theorem Declares.frames_eq (h : Declares calls bindings) (henabled : scope.enabled = true)
    {frames : List (List Binding)} (hframes : scope.frames = frame :: frames) :
    (calls.foldl Scope.step scope).frames = (frame ++ bindings) :: frames := by
  induction h generalizing scope frame frames with
  | nothing => rw [List.append_nil]; exact hframes
  | call hcall _ ih =>
    rw [List.foldl_cons, ih (enabled_step henabled _) (frames_step hcall henabled hframes), List.append_assoc]
  | @frame inside calls inner bindings _ _ ih ih' =>
    have hinner := ih (enabled_step henabled .push) ((frames_push henabled).trans (congrArg _ hframes))
    have hinside := enabled_steps (enabled_step henabled .push) inside
    rw [List.cons_append, List.foldl_cons, List.foldl_append, List.foldl_cons]
    exact ih' (enabled_step hinside .pop) (frames_pop hinside hinner)

/-- Behind calls that close all frames that they open, none is open if none was before. -/
theorem Declares.frames_nil (h : Declares calls bindings) (henabled : scope.enabled = true) (hframes : scope.frames = []) :
    (calls.foldl Scope.step scope).frames = [] := by
  induction h generalizing scope with
  | nothing => exact hframes
  | call hcall _ ih => exact ih (enabled_step henabled _) (frames_step_nil hcall hframes)
  | @frame inside calls inner bindings hinside _ _ ih =>
    have hinner := hinside.frames_eq (enabled_step henabled .push) (frames_push henabled)
    have hclosing := enabled_steps (enabled_step henabled .push) inside
    rw [List.cons_append, List.foldl_cons, List.foldl_append, List.foldl_cons]
    exact ih (enabled_step hclosing .pop) ((frames_pop hclosing hinner).trans hframes)

/-- The frames that are left open are on top of those that are open behind the calls they follow. -/
theorem Leaves.frames_eq (h : Leaves base calls frames) (henabled : scope.enabled = true) :
    ∃ first, base first ∧
      (calls.foldl Scope.step scope).frames = frames ++ (first.foldl Scope.step scope).frames := by
  induction h with
  | level h => exact ⟨_, h, rfl⟩
  | @opened calls inside _ _ _ hinside ih =>
    obtain ⟨first, hfirst, hframes⟩ := ih
    refine ⟨first, hfirst, ?_⟩
    have hcalls := enabled_steps henabled calls
    rw [List.foldl_append, List.foldl_cons, hinside.frames_eq (enabled_step hcalls .push) (frames_push hcalls),
      hframes, List.nil_append, List.cons_append]

/-- As long as a frame is not closed, nothing that was declared in it or around it is lost. -/
theorem frames_of_not_closes (h : ¬ Closes calls) (henabled : scope.enabled = true) {frames : List (List Binding)}
    (hframes : scope.frames = frame :: frames) :
    ∃ opened declared, (calls.foldl Scope.step scope).frames = opened ++ (frame ++ declared) :: frames := by
  obtain ⟨opened, hleaves⟩ := (closes_or_leaves calls).resolve_left h
  obtain ⟨first, ⟨bindings, hfirst⟩, heq⟩ := hleaves.frames_eq henabled
  exact ⟨opened, bindings, heq.trans (congrArg _ (hfirst.frames_eq henabled hframes))⟩

/-- Any calls leave open the frames that they opened and did not close. -/
theorem leaves_after (calls : List Call) : ∃ frames, Leaves (fun calls => (after calls).frames = []) calls frames := by
  induction calls using List.reverseRecOn with
  | nil => exact ⟨[], .level rfl⟩
  | append_singleton calls call ih =>
    obtain ⟨frames, hleaves⟩ := ih
    have hbase (calls more : List Call) (bindings : List Binding) (h : (after calls).frames = [])
        (hmore : Declares more bindings) : (after (calls ++ more)).frames = [] := by
      rw [after_append]
      exact hmore.frames_nil (enabled_after calls) h
    refine (hleaves.step hbase call).elim id fun ⟨hpop, hnone⟩ => ⟨[], .level ?_⟩
    rw [hpop, after_append]
    exact frames_pop_nil hnone

/-- Calls that leave frames open leave those of the scope. -/
theorem Leaves.frames_after (h : Leaves (fun calls => (after calls).frames = []) calls frames) :
    (after calls).frames = frames := by
  have henabled : ({ enabled := true } : Scope).enabled = true := rfl
  obtain ⟨first, hfirst, hframes⟩ := h.frames_eq henabled
  refine hframes.trans ?_
  rw [show (first.foldl Scope.step { enabled := true }).frames = [] from hfirst, List.append_nil]

/-! ## Names -/

/-- A name is visible exactly when a frame binds it. -/
theorem isVisible_iff : scope.isVisible name = true ↔ ∃ frame ∈ scope.frames, ∃ binding ∈ frame, binding.name = name := by
  simp only [isVisible, List.any_eq_true, beq_iff_eq]

/-- What is declared in a frame was declared by a call before which the frame was innermost. -/
theorem Declares.split_of_mem (h : Declares calls bindings) {binding : Binding} (hmem : binding ∈ bindings) :
    ∃ between others call behind, calls = between ++ call :: behind ∧ Declares between others ∧
      call.binding? = some binding := by
  induction h with
  | nothing => cases hmem
  | @call call calls bindings hcall _ ih =>
    rcases List.mem_append.mp hmem with hmem | hmem
    · exact ⟨[], [], call, calls, rfl, .nothing, Option.mem_toList.mp hmem⟩
    · obtain ⟨between, others, other, behind, rfl, hbetween, hother⟩ := ih hmem
      exact ⟨call :: between, _, other, behind, rfl, .call hcall hbetween, hother⟩
  | @frame inside calls inner bindings hinside _ _ ih =>
    obtain ⟨between, others, call, behind, rfl, hbetween, hcall⟩ := ih hmem
    exact ⟨.push :: inside ++ .pop :: between, others, call, behind, by simp, .frame hinside hbetween, hcall⟩

/-- What a call declares stays visible as long as the innermost frame is not closed. -/
theorem isVisible_of_declared {before behind : List Call} {binding : Binding} (hbinding : call.binding? = some binding)
    (hframes : (after before).frames = frame :: frames) (hopen : ¬ Closes behind) :
    (after (before ++ call :: behind)).isVisible binding.name = true := by
  have hcall : ¬ call.Moves := by cases call <;> simp_all [Call.binding?, Call.Moves]
  have hdeclared := frames_step hcall (enabled_after before) hframes
  obtain ⟨opened, declared, hbehind⟩ := frames_of_not_closes hopen (enabled_step (enabled_after before) call) hdeclared
  rw [isVisible_iff, after_append, List.foldl_cons, hbehind]
  exact ⟨_, List.mem_append_right _ (List.mem_cons_self ..), binding, by simp [hbinding], rfl⟩

/-- What is declared in a frame that was left open is in force. -/
theorem Leaves.inForce (h : Leaves base calls frames) (hframe : frame ∈ frames) {binding : Binding}
    (hmem : binding ∈ frame) : InForce calls binding.name := by
  induction h with
  | level => cases hframe
  | @opened calls inside frames inner h hinside ih =>
    rcases List.mem_cons.mp hframe with rfl | hframe
    · obtain ⟨between, others, call, behind, hcalls, hbetween, hcall⟩ := hinside.split_of_mem hmem
      exact ⟨calls, inside, rfl, hinside.not_closes, between, others, call, behind, hcalls, hbetween, binding, hcall, rfl⟩
    · obtain ⟨before, outer, rfl, hopen, between, others, call, behind, rfl, hdeclared⟩ := ih hframe
      exact ⟨before, between ++ call :: behind ++ .push :: inside, by simp, not_closes_opened hopen hinside, between, others,
        call, behind ++ .push :: inside, by simp, hdeclared⟩

/-- A name is visible exactly if it was declared in a frame that is still open. -/
theorem isVisible_after (calls : List Call) (name : String) :
    (after calls).isVisible name = true ↔ InForce calls name := by
  constructor
  · intro h
    obtain ⟨frames, hleaves⟩ := leaves_after calls
    obtain ⟨frame, hframe, binding, hmem, rfl⟩ := isVisible_iff.mp h
    rw [hleaves.frames_after] at hframe
    exact hleaves.inForce hframe hmem
  · rintro ⟨before, inside, rfl, hopen, between, bindings, call, behind, rfl, hbetween, binding, hcall, rfl⟩
    have hpushed := enabled_step (enabled_after before) .push
    have hframes : (after (before ++ .push :: between)).frames = ([] ++ bindings) :: (after before).frames := by
      rw [after_append]
      exact hbetween.frames_eq hpushed (frames_push (enabled_after before))
    have hmoves : ¬ call.Moves := by cases call <;> simp_all [Call.binding?, Call.Moves]
    have hbehind : ¬ Closes behind := fun h => hopen (by
      have := Declares.closes_append (hbetween.append (.single hmoves)) h
      rwa [List.append_assoc] at this)
    have hvisible := isVisible_of_declared hcall hframes hbehind
    rwa [List.append_assoc, List.cons_append] at hvisible

/-- A name resolves behind calls exactly when its binding is in force. -/
theorem resolve_after (calls : List Call) (identifier : Identifier) :
    ((after calls).resolve identifier).1 = true ↔ InForce calls identifier.name := by
  rw [← isVisible_after, resolve, if_pos (enabled_after calls)]
  split
  · exact iff_of_true rfl ‹_›
  · split <;> exact iff_of_false Bool.false_ne_true ‹_›

/-! ## Closing frames -/

/-- Closing a frame gives its declarations, and there is nothing to close but frames that are open. -/
theorem pop_after (calls : List Call) (bindings : List Binding) :
    (after calls).pop.1 = some bindings ↔
      ∃ before inside, calls = before ++ .push :: inside ∧ Declares inside bindings := by
  have hpop : (after calls).pop.1 = (after calls).frames.head? := by
    rw [pop, if_pos (enabled_after calls)]
    cases (after calls).frames <;> rfl
  rw [hpop]
  constructor
  · intro h
    obtain ⟨frames, hleaves⟩ := leaves_after calls
    rw [hleaves.frames_after] at h
    cases hleaves with
    | level => cases h
    | opened _ hinside =>
      obtain rfl := Option.some.inj h
      exact ⟨_, _, rfl, hinside⟩
  · rintro ⟨before, inside, rfl, hinside⟩
    rw [after_append, List.foldl_cons,
      hinside.frames_eq (enabled_step (enabled_after before) .push) (frames_push (enabled_after before))]
    rfl

/-- While a frame is open, everything that was visible before it is. -/
theorem isVisible_inside {before inside : List Call} (hopen : ¬ Closes inside)
    (h : (after before).isVisible name = true) : (after (before ++ .push :: inside)).isVisible name = true := by
  obtain ⟨opened, declared, hframes⟩ := frames_of_not_closes hopen (enabled_step (enabled_after before) .push)
    (frames_push (enabled_after before))
  obtain ⟨frame, hframe, hbinding⟩ := isVisible_iff.mp h
  rw [isVisible_iff, after_append, List.foldl_cons, hframes]
  exact ⟨frame, List.mem_append_right _ (List.mem_cons_of_mem _ hframe), hbinding⟩

/-- Closing a frame restores the frames that were open before it. -/
theorem frames_closed {before inside : List Call} (hinside : Declares inside bindings) :
    (after (before ++ .push :: inside ++ [.pop])).frames = (after before).frames := by
  have hpushed := enabled_step (enabled_after before) .push
  rw [after_append, after_append, List.foldl_cons, List.foldl_cons, List.foldl_nil]
  exact frames_pop (enabled_steps hpushed inside) (hinside.frames_eq hpushed (frames_push (enabled_after before)))

end

/-! ## Global names -/

/-- The first use of each name among some uses. -/
def firstUses : List Identifier → List Identifier
  | [] => []
  | use :: later => use :: (firstUses later).filter fun other => other.name != use.name

/-- Only a use that fails is noted, and only if its name is not yet. -/
theorem unresolved_resolve (scope : Scope) (henabled : scope.enabled = true) (identifier : Identifier) :
    (scope.step (.resolve identifier)).unresolved =
      if scope.isVisible identifier.name || scope.isUnresolved identifier.name then scope.unresolved
      else scope.unresolved ++ [identifier] := by
  rw [step, resolve, if_pos henabled]
  cases scope.isVisible identifier.name <;> cases scope.isUnresolved identifier.name <;> rfl

/-- The unresolved names change only when a name is resolved or they are taken. -/
theorem unresolved_step {call : Call} (scope : Scope) (hcall : ∀ identifier, call ≠ .resolve identifier)
    (htake : call ≠ .takeUnresolved) : (scope.step call).unresolved = scope.unresolved := by
  cases call <;> grind [step, push, pop, declare, declareName, Scope.bind]

/-- Whether a name is none of some others. -/
def isNew (known : List Identifier) (use : Identifier) : Bool := known.all fun other => other.name != use.name

/-- A name is new behind another use if it was and is not the name of this use. -/
theorem isNew_append (known : List Identifier) (use other : Identifier) :
    isNew (known ++ [use]) other = (isNew known other && other.name != use.name) := by
  rw [isNew, List.all_append, List.all_cons, List.all_nil, Bool.and_true, bne_comm (a := use.name)]
  rfl

/-- A use of a name that is noted already is no first use, and a name is noted at its first use. -/
theorem filter_firstUses (known uses : List Identifier) (use : Identifier) :
    (firstUses (use :: uses)).filter (isNew known) =
      if isNew known use then use :: (firstUses uses).filter (isNew (known ++ [use]))
      else (firstUses uses).filter (isNew known) := by
  rw [firstUses, List.filter_cons, List.filter_filter]
  split
  · exact congrArg _ (List.filter_congr fun other _ => (isNew_append known use other).symm)
  · next hknown =>
    refine List.filter_congr fun other _ => ?_
    cases hnew : isNew known other with
    | false => rfl
    | true =>
      rw [Bool.true_and, bne_iff_ne]
      exact fun hname => hknown (by rwa [isNew, ← hname])

/-- What is noted are the first uses that failed of names that were not noted before. -/
theorem Failing.unresolved_eq {before calls : List Call} {failed : List Identifier} (h : Failing before calls failed)
    (htake : .takeUnresolved ∉ calls) : (after (before ++ calls)).unresolved =
      (after before).unresolved ++ (firstUses failed).filter (isNew (after before).unresolved) := by
  induction h with
  | nothing => rw [List.append_nil]; exact (List.append_nil _).symm
  | @failed before calls identifier failed hfree _ ih =>
    rw [List.append_cons, ih (List.not_mem_of_not_mem_cons htake), filter_firstUses, after_append, List.foldl_cons,
      List.foldl_nil, unresolved_resolve _ (enabled_after before), Bool.eq_false_iff.mpr (mt (isVisible_after _ _).mp hfree),
      Bool.false_or]
    have hnew : isNew (after before).unresolved identifier = !(after before).isUnresolved identifier.name := by
      rw [isNew, isUnresolved, List.not_any_eq_all_not]
      rfl
    rw [hnew]
    cases (after before).isUnresolved identifier.name with
    | true => rfl
    | false => exact List.append_assoc _ _ _
  | @found before calls identifier failed hbound _ ih =>
    rw [List.append_cons, ih (List.not_mem_of_not_mem_cons htake), after_append, List.foldl_cons, List.foldl_nil,
      unresolved_resolve _ (enabled_after before), (isVisible_after _ _).mpr hbound, Bool.true_or, if_pos rfl]
  | @other before calls call failed hcall _ ih =>
    have hkept : (after (before ++ [call])).unresolved = (after before).unresolved := by
      rw [after_append]
      exact unresolved_step _ hcall (List.ne_of_not_mem_cons htake).symm
    rw [List.append_cons, ih (List.not_mem_of_not_mem_cons htake), hkept]

/-- Of any calls it is determined which uses fail. -/
theorem exists_failing (before calls : List Call) : ∃ failed, Failing before calls failed := by
  induction calls generalizing before with
  | nil => exact ⟨[], .nothing⟩
  | cons call calls ih =>
    obtain ⟨failed, h⟩ := ih (before ++ [call])
    by_cases hcall : ∃ identifier, call = .resolve identifier
    · obtain ⟨identifier, rfl⟩ := hcall
      by_cases hbound : InForce before identifier.name
      · exact ⟨failed, .found hbound h⟩
      · exact ⟨identifier :: failed, .failed hbound h⟩
    · exact ⟨failed, .other (not_exists.mp hcall) h⟩

/-- Names are taken once, each at the first of its uses that failed since names were taken last. -/
theorem takeUnresolved_after {before since : List Call} (hbefore : before = [] ∨ ∃ first, before = first ++ [.takeUnresolved])
    (htake : .takeUnresolved ∉ since) {failed : List Identifier} (h : Failing before since failed) :
    (after (before ++ since)).takeUnresolved.1 = some (firstUses failed) := by
  have hnone : (after before).unresolved = [] := by
    rcases hbefore with rfl | ⟨first, rfl⟩
    · rfl
    · rw [after_append, List.foldl_cons, List.foldl_nil, step, takeUnresolved, if_pos (enabled_after first)]
  rw [takeUnresolved, if_pos (enabled_after _), h.unresolved_eq htake, hnone, List.nil_append]
  exact congrArg some (List.filter_eq_self.mpr fun _ _ => rfl)

/-! ## What a scope answers -/

/-- What a scope answers after some calls, said without the scope. -/
structure Stacked (calls : List Call) : Prop where
  visible : ∀ name, (after calls).isVisible name = true ↔ InForce calls name
  resolves : ∀ identifier, ((after calls).resolve identifier).1 = true ↔ InForce calls identifier.name
  /-- No declaration around a frame is lost as long as the frame is open. -/
  keeps : ∀ before inside, calls = before ++ .push :: inside → ¬ Closes inside →
    ∀ name, (after before).isVisible name = true → (after calls).isVisible name = true
  /-- When a frame was closed, the same names are visible as before it was opened. -/
  restores : ∀ before inside bindings, calls = before ++ .push :: inside ++ [.pop] → Declares inside bindings →
    ∀ name, (after calls).isVisible name = (after before).isVisible name
  /-- Closing a frame gives what was declared in it, if there is a frame to close. -/
  pops : ∀ bindings, (after calls).pop.1 = some bindings ↔
    ∃ before inside, calls = before ++ .push :: inside ∧ Declares inside bindings
  /-- Of the names whose uses failed since names were taken last, each is taken once. -/
  takes : ∀ before since, calls = before ++ since →
    (before = [] ∨ ∃ first, before = first ++ [.takeUnresolved]) → .takeUnresolved ∉ since →
    ∃ failed, Failing before since failed ∧ (after calls).takeUnresolved.1 = some (firstUses failed)

/-- A scope is a stack of rows of names, whatever calls are made in whatever order. -/
theorem calls_stacked (calls : List Call) : Stacked calls where
  visible := isVisible_after calls
  resolves := resolve_after calls
  keeps := by
    rintro before inside rfl hopen name h
    exact isVisible_inside hopen h
  restores := by
    rintro before inside bindings rfl hinside name
    rw [isVisible, isVisible, frames_closed hinside]
  pops := pop_after calls
  takes := by
    rintro before since rfl hbefore htake
    obtain ⟨failed, h⟩ := exists_failing before since
    exact ⟨failed, h, takeUnresolved_after hbefore htake h⟩

/-- A frame with a name declared twice, closed behind one that was opened in it, and a close too many before it. -/
example : (after [.pop, .declareName "a", .push, .declareName "b", .push, .declareName "c", .pop, .declareName "b"]).pop.1 =
    some [⟨"b", none⟩, ⟨"b", none⟩] := rfl

end LuaSyntax.Scope
