import LuaSyntax.Tree.Basic
import Mathlib.Algebra.GroupWithZero.Nat
import Mathlib.Data.List.Induction
import Mathlib.Data.List.Nodup

/-!
# Jumps in a tree

Which jumps of a tree are allowed can be said of the tree alone. A `goto` that no block inside a
statement has a label for escapes from the statement, and it may be for a label of the block that the
statement stands in. `Orderly` says of the statements of a block that no label is there twice and that
no jump to a label of the block enters the scope of a local variable of the block.

The same can be found out in one walk over the statements. `Frame` is what such a walk has to keep of
the statements behind it, and `orderly_iff` says that nothing else needs to be kept: the statements are
orderly if each is admitted behind those before it.
-/

namespace LuaSyntax

/-! ## Labels, locals and gotos of a statement -/

/-- The name of a label. -/
def Statement.label? : Statement → Option String
  | .labelStatement label _ => some label.name
  | _ => none

/-- The labels among some statements, those in nested blocks left out. -/
def labelsOf (statements : List Statement) : List String := statements.filterMap Statement.label?

/-- How many locals a statement declares in its block. -/
def Statement.localCount : Statement → Nat
  | .localStatement names _ _ => names.length
  | .functionStatement (.mk _ isLocal _ _ _) => if isLocal then 1 else 0
  | _ => 0

/-- How many locals some statements declare in their block. -/
def localCount (statements : List Statement) : Nat := (statements.map Statement.localCount).sum

mutual

/-- The labels that are jumped to from inside a statement and are not in blocks around those jumps
inside it. -/
def Statement.escaping : Statement → List String
  | .gotoStatement label _ => [label.name]
  | .ifStatement clauses _ => escapingClauses clauses
  | .whileStatement _ body _ => body.escaping
  | .doStatement body _ => body.escaping
  | .repeatStatement body _ _ => body.escaping
  | .numericFor _ _ _ _ body _ => body.escaping
  | .genericFor _ _ body _ => body.escaping
  | _ => []

/-- The labels that are jumped to from inside a block and are not in it. -/
def Block.escaping : Block → List String
  | .mk statements _ =>
    (escapingStatements statements).filter fun name => !(labelsOf statements).contains name

/-- The labels that are jumped to from inside a clause and are not in it. -/
def Clause.escaping : Clause → List String
  | .ifClause _ body _ => body.escaping
  | .elseifClause _ body _ => body.escaping
  | .elseClause body _ => body.escaping

/-- The labels that are jumped to from inside some statements, wherever they are outside. -/
def escapingStatements : List Statement → List String
  | [] => []
  | statement :: rest => statement.escaping ++ escapingStatements rest

/-- The labels that are jumped to from inside some clauses and are not in those. -/
def escapingClauses : List Clause → List String
  | [] => []
  | clause :: rest => clause.escaping ++ escapingClauses rest

end

variable {statement : Statement} {statements more : List Statement} {name : String}

/-- The labels of a sequence are those of its first part and those of its second. -/
@[simp] theorem labelsOf_append :
    labelsOf (statements ++ more) = labelsOf statements ++ labelsOf more := List.filterMap_append

/-- The locals of a sequence are those of its first part and those of its second. -/
@[simp] theorem localCount_append :
    localCount (statements ++ more) = localCount statements + localCount more := by
  simp [localCount]

@[simp] theorem localCount_nil : localCount [] = 0 := rfl

@[simp] theorem localCount_cons :
    localCount (statement :: statements) = statement.localCount + localCount statements := by
  simp [localCount]

/-- What escapes from statements escapes from one of them. -/
theorem escapingStatements_eq (statements : List Statement) :
    escapingStatements statements = statements.flatMap Statement.escaping := by
  induction statements with
  | nil => rfl
  | cons statement rest ih => rw [escapingStatements, ih, List.flatMap_cons]

theorem escapingClauses_append (clauses more : List Clause) :
    escapingClauses (clauses ++ more) = escapingClauses clauses ++ escapingClauses more := by
  induction clauses with
  | nil => rfl
  | cons clause rest ih => rw [List.cons_append, escapingClauses, escapingClauses, ih,
      List.append_assoc]

/-- What declares a local is no jump and holds none. -/
theorem Statement.localCount_of_escaping (h : name ∈ statement.escaping) :
    statement.localCount = 0 := by
  cases statement <;> first | rfl | cases h

/-- A label is no jump. -/
theorem Statement.label?_of_escaping (h : name ∈ statement.escaping) :
    statement.label? = none := by
  cases statement <;> first | rfl | cases h

/-- A label declares nothing. -/
theorem Statement.localCount_of_label (h : statement.label? = some name) :
    statement.localCount = 0 := by
  cases statement <;> first | rfl | cases h

/-- A statement that defines a label is a label. -/
theorem Statement.eq_label (h : statement.label? = some name) :
    ∃ label placement, statement = .labelStatement label placement ∧ label.name = name := by
  cases statement with
  | labelStatement label placement => exact ⟨label, placement, rfl, Option.some.inj h⟩
  | _ => cases h

/-- What escapes from a block escapes from one of its statements, and the block has no such label. -/
theorem mem_escaping_block {body : Block} :
    name ∈ body.escaping ↔
      (∃ statement ∈ body.statements, name ∈ statement.escaping) ∧
        name ∉ labelsOf body.statements := by
  obtain ⟨statements, scope⟩ := body
  simp [Block.escaping, escapingStatements_eq, Block.statements]

/-! ## Orderly statements -/

/-- Statements of a block among which every label has a name of its own, and which no jump makes go on
in the scope of a local variable. Such a jump is one from a statement to a label behind a local that is
declared behind the statement. If nothing but labels is behind that label, the scope is taken to end
before it, unless a condition that sees the locals comes behind the block. The labels `outer`, which
stand before the block in blocks around it, are jumped to from it even if it has labels of those names
further on. -/
structure Orderly (outer : List String) (isRepeat : Bool) (statements : List Statement) : Prop where
  distinct : (labelsOf statements).Nodup
  entersNoLocal : ∀ (before : List Statement) (source : Statement) (between : List Statement)
    (label : Identifier) (placement : Placement) (after : List Statement),
    statements = before ++ source :: between ++ .labelStatement label placement :: after →
    label.name ∈ source.escaping → label.name ∉ outer → 0 < localCount between →
    (∀ statement ∈ after, statement.label? ≠ none) ∧ isRepeat = false

/-! ## Frames -/

/-- What there is to know of the statements of a block that were walked over. -/
structure Frame where
  isLoop : Bool
  labels : List String := []
  /-- How many locals were declared. -/
  locals : Nat := 0
  /-- The labels that are jumped to and were not met, and how many locals there were at the jump. -/
  pending : List (String × Nat) := []
  /-- Whether a jump enters the scope of a local if the block goes on. -/
  crossed : Bool := false

namespace Frame

/-- The frame behind a label. -/
def label (frame : Frame) (name : String) : Frame :=
  { frame with
    labels := name :: frame.labels
    pending := frame.pending.filter fun waiting => waiting.1 != name
    crossed := frame.crossed ||
      frame.pending.any fun waiting => waiting.1 == name && decide (waiting.2 < frame.locals) }

/-- The frame behind jumps to some labels, where `outer` are those in blocks around. -/
def jump (outer : List String) (frame : Frame) (names : List String) : Frame :=
  { frame with
    pending := frame.pending ++
      (names.filter fun name => !(frame.labels ++ outer).contains name).map (·, frame.locals) }

/-- The frame behind the declaration of some locals. -/
def declare (frame : Frame) (count : Nat) : Frame := { frame with locals := frame.locals + count }

/-- The frame behind a statement. -/
def behind (outer : List String) (frame : Frame) (statement : Statement) : Frame :=
  match statement.label? with
  | some name => frame.label name
  | none => (frame.jump outer statement.escaping).declare statement.localCount

/-- The frame behind some statements. -/
def after (outer : List String) (frame : Frame) (statements : List Statement) : Frame :=
  statements.foldl (behind outer) frame

/-- Whether a statement may come next. -/
def Admits (frame : Frame) (statement : Statement) : Prop :=
  match statement.label? with
  | some name => name ∉ frame.labels
  | none => frame.crossed = false

/-- Whether some statements may come next. -/
def AdmitsAll (outer : List String) : Frame → List Statement → Prop
  | _, [] => True
  | frame, statement :: rest =>
    frame.Admits statement ∧ (frame.behind outer statement).AdmitsAll outer rest

variable {outer : List String} {frame : Frame} {isLoop : Bool} {count : Nat}

/-- A jump defines no label. -/
@[simp] theorem labels_jump (names : List String) : (frame.jump outer names).labels = frame.labels :=
  rfl

/-- Statements are gone through one part behind the other. -/
theorem after_append :
    frame.after outer (statements ++ more) = (frame.after outer statements).after outer more :=
  List.foldl_append

/-- The last statement is gone through last. -/
theorem after_concat :
    frame.after outer (statements ++ [statement]) =
      (frame.after outer statements).behind outer statement := after_append

/-- Jumps from one thing and from another are jumps from both. -/
theorem jump_jump (names names' : List String) :
    (frame.jump outer names).jump outer names' = frame.jump outer (names ++ names') := by
  simp [jump]

/-- No jump leaves a frame as it is. -/
theorem jump_nil : frame.jump outer [] = frame := by simp [jump]

/-- A jump waits where neither the frame nor what is around it has the label. -/
theorem mem_pending_jump {names : List String} :
    (name, count) ∈ (frame.jump outer names).pending ↔ (name, count) ∈ frame.pending ∨
      (name ∈ names ∧ name ∉ frame.labels ++ outer) ∧ count = frame.locals := by
  simp only [jump, List.mem_append, List.mem_map, List.mem_filter, Prod.mk.injEq,
    Bool.not_eq_true', ← Bool.not_eq_true, List.contains_iff_mem]
  refine or_congr Iff.rfl ⟨?_, ?_⟩
  · rintro ⟨_, hname, rfl, rfl⟩
    exact ⟨hname, rfl⟩
  · rintro ⟨hname, rfl⟩
    exact ⟨name, hname, rfl, rfl⟩

/-- A jump to a label that was met does not wait. -/
theorem jump_of_mem (h : name ∈ frame.labels ++ outer) : frame.jump outer [name] = frame := by
  have hmet : (frame.labels ++ outer).contains name = true := List.contains_iff_mem.mpr h
  simp only [jump, List.filter_cons, hmet, Bool.not_true, Bool.false_eq_true, if_false,
    List.filter_nil, List.map_nil, List.append_nil]

/-- A jump to a label that is not there waits. -/
theorem jump_of_not_mem (h : name ∉ frame.labels ++ outer) : frame.jump outer [name] =
    { frame with pending := frame.pending ++ [(name, frame.locals)] } := by
  have hmet : (frame.labels ++ outer).contains name = false :=
    Bool.eq_false_iff.mpr (mt List.contains_iff_mem.mp h)
  simp only [jump, List.filter_cons, hmet, Bool.not_false, if_true, List.filter_nil, List.map_cons,
    List.map_nil]

/-- A sequence is admitted if its first part is, and its second behind it. -/
theorem admitsAll_append : frame.AdmitsAll outer (statements ++ more) ↔
    frame.AdmitsAll outer statements ∧ (frame.after outer statements).AdmitsAll outer more := by
  induction statements generalizing frame with
  | nil => exact (true_and _).symm.to_iff
  | cons statement rest ih =>
    rw [List.cons_append, AdmitsAll, AdmitsAll, ih, and_assoc]
    rfl

/-- Whether a jump from among some statements waits for a label, and how many locals there were. -/
def Waits (outer : List String) (statements : List Statement) (name : String) (count : Nat) : Prop :=
  ∃ before source between, statements = before ++ source :: between ∧ name ∈ source.escaping ∧
    name ∉ labelsOf before ∧ name ∉ outer ∧ name ∉ labelsOf between ∧ count = localCount before

/-- Whether among some statements there is a jump to a label behind a local. -/
def Crosses (outer : List String) (statements : List Statement) : Prop :=
  ∃ before source between label placement after,
    statements = before ++ source :: between ++ .labelStatement label placement :: after ∧
    label.name ∈ source.escaping ∧ label.name ∉ labelsOf before ∧ label.name ∉ outer ∧
    label.name ∉ labelsOf between ∧ 0 < localCount between

/-- A jump waits behind one more statement if it waited before and the statement is not its label, or if it escapes
from it. -/
theorem waits_concat : Waits outer (statements ++ [statement]) name count ↔
    (Waits outer statements name count ∧ statement.label? ≠ some name) ∨
      (name ∈ statement.escaping ∧ name ∉ labelsOf statements ∧ name ∉ outer ∧
        count = localCount statements) := by
  constructor
  · rintro ⟨before, source, between, heq, hsource, hbefore, houter, hbetween, hcount⟩
    rcases List.eq_nil_or_concat between with rfl | ⟨between, last, rfl⟩
    · obtain ⟨rfl, hlast⟩ := List.append_inj' heq rfl
      obtain rfl := List.singleton_inj.mp hlast
      exact .inr ⟨hsource, hbefore, houter, hcount⟩
    · rw [List.concat_eq_append, ← List.cons_append, ← List.append_assoc] at heq
      obtain ⟨rfl, hlast⟩ := List.append_inj' heq rfl
      obtain rfl := List.singleton_inj.mp hlast
      rw [List.concat_eq_append, labelsOf_append, List.mem_append, not_or] at hbetween
      refine .inl ⟨⟨before, source, between, rfl, hsource, hbefore, houter, hbetween.1, hcount⟩,
        fun hlabel => hbetween.2 ?_⟩
      exact List.mem_filterMap.mpr ⟨_, List.mem_singleton_self _, hlabel⟩
  · rintro (⟨⟨before, source, between, rfl, hsource, hbefore, houter, hbetween, hcount⟩, hlabel⟩ |
      ⟨hsource, hbefore, houter, hcount⟩)
    · refine ⟨before, source, between ++ [statement], by simp, hsource, hbefore, houter, ?_, hcount⟩
      rw [labelsOf_append, List.mem_append, not_or]
      refine ⟨hbetween, fun hmem => hlabel ?_⟩
      obtain ⟨_, hmem, hname⟩ := List.mem_filterMap.mp hmem
      exact List.mem_singleton.mp hmem ▸ hname
    · exact ⟨statements, statement, [], rfl, hsource, hbefore, houter, List.not_mem_nil, hcount⟩

/-- A jump waits for a label at which the count of locals is higher exactly if a local came between. -/
theorem crosses_concat : Crosses outer (statements ++ [statement]) ↔
    Crosses outer statements ∨ ∃ name count, statement.label? = some name ∧
      Waits outer statements name count ∧ count < localCount statements := by
  constructor
  · rintro ⟨before, source, between, label, placement, after, heq, hsource, hbefore, houter, hbetween,
      hlocal⟩
    rcases List.eq_nil_or_concat after with rfl | ⟨after, last, rfl⟩
    · obtain ⟨rfl, hlast⟩ := List.append_inj' heq rfl
      obtain rfl := List.singleton_inj.mp hlast
      refine .inr ⟨label.name, localCount before, rfl, ⟨before, source, between, rfl, hsource,
        hbefore, houter, hbetween, rfl⟩, ?_⟩
      rw [localCount_append, localCount_cons, Statement.localCount_of_escaping hsource]
      omega
    · rw [List.concat_eq_append, ← List.cons_append, ← List.append_assoc] at heq
      obtain ⟨rfl, -⟩ := List.append_inj' heq rfl
      exact .inl ⟨before, source, between, label, placement, after, rfl, hsource, hbefore, houter,
        hbetween, hlocal⟩
  · rintro (⟨before, source, between, label, placement, after, rfl, hrest⟩ |
      ⟨name, count, hlabel, ⟨before, source, between, rfl, hsource, hbefore, houter, hbetween, rfl⟩,
        hlocal⟩)
    · exact ⟨before, source, between, label, placement, after ++ [statement], by simp, hrest⟩
    · obtain ⟨label, placement, rfl, rfl⟩ := Statement.eq_label hlabel
      refine ⟨before, source, between, label, placement, [], rfl, hsource, hbefore, houter, hbetween,
        ?_⟩
      rw [localCount_append, localCount_cons, Statement.localCount_of_escaping hsource] at hlocal
      omega

/-- What a walk over statements finds out. -/
structure Covers (outer : List String) (statements : List Statement) (frame : Frame) : Prop where
  labels : ∀ name, name ∈ frame.labels ↔ name ∈ labelsOf statements
  locals : frame.locals = localCount statements
  pending : ∀ name count, (name, count) ∈ frame.pending ↔ Waits outer statements name count
  crossed : frame.crossed = true ↔ Crosses outer statements

/-- A frame that covers statements covers one more when it has gone behind it. -/
theorem Covers.behind (h : Covers outer statements frame) (statement : Statement) :
    Covers outer (statements ++ [statement]) (frame.behind outer statement) := by
  obtain ⟨hlabels, hlocals, hpending, hcrossed⟩ := h
  cases hlabel : statement.label? with
  | some name =>
    rw [Frame.behind, hlabel]
    have hescaping (other : String) : other ∉ statement.escaping := fun hmem => by
      rw [Statement.label?_of_escaping hmem] at hlabel
      cases hlabel
    refine ⟨fun other => ?_, ?_, fun other count => ?_, ?_⟩
    · rw [labelsOf_append, List.mem_append, ← hlabels]
      simp [label, labelsOf, hlabel, or_comm]
    · simp [label, Statement.localCount_of_label hlabel, hlocals]
    · rw [waits_concat, hlabel, ← hpending, ne_eq, Option.some.injEq]
      simp only [label, List.mem_filter, bne_iff_ne, hescaping, false_and, or_false, ne_comm]
    · rw [crosses_concat, ← hcrossed, ← hlocals]
      simp only [label, Bool.or_eq_true, List.any_eq_true, Prod.exists, Bool.and_eq_true, beq_iff_eq,
        decide_eq_true_eq, hpending, hlabel, Option.some.injEq]
      constructor
      · rintro (h | ⟨other, count, hwaits, rfl, hlt⟩)
        · exact .inl h
        · exact .inr ⟨other, count, rfl, hwaits, hlt⟩
      · rintro (h | ⟨other, count, rfl, hwaits, hlt⟩)
        · exact .inl h
        · exact .inr ⟨name, count, hwaits, rfl, hlt⟩
  | none =>
    rw [Frame.behind, hlabel]
    refine ⟨fun other => ?_, ?_, fun other count => ?_, ?_⟩
    · simp [declare, labelsOf, hlabel, hlabels]
    · simp [declare, jump, hlocals]
    · rw [waits_concat, hlabel, ← hpending, ← hlocals, ← hlabels, declare, mem_pending_jump,
        List.mem_append, not_or, and_assoc, and_assoc]
      exact or_congr (and_iff_left nofun).symm Iff.rfl
    · rw [crosses_concat, ← hcrossed, hlabel]
      simp [declare, jump]

/-- The frame behind statements covers them. -/
theorem covers_after (isLoop : Bool) (outer : List String) (statements : List Statement) :
    Covers outer statements (Frame.after outer { isLoop } statements) := by
  induction statements using List.reverseRecOn with
  | nil =>
    refine ⟨fun _ => Iff.rfl, rfl, fun name count => ⟨nofun, ?_⟩, ⟨nofun, ?_⟩⟩
    · rintro ⟨before, _, _, heq, -⟩
      cases before <;> cases heq
    · rintro ⟨before, _, _, _, _, _, heq, -⟩
      cases before <;> cases heq
  | append_singleton statements statement ih =>
    rw [after_concat]
    exact ih.behind statement

/-- What still waits behind a block jumps out of it, to no label that stands before it outside. -/
theorem mem_pending_after {body : Block} :
    (∃ count, (name, count) ∈ (Frame.after outer { isLoop } body.statements).pending) ↔
      name ∈ body.escaping ∧ name ∉ outer := by
  simp only [(covers_after isLoop outer body.statements).pending, mem_escaping_block]
  constructor
  · rintro ⟨count, before, source, between, heq, hsource, hbefore, houter, hbetween, -⟩
    have hcons : labelsOf (source :: between) = labelsOf between :=
      List.filterMap_cons_none (Statement.label?_of_escaping hsource)
    rw [heq, labelsOf_append, hcons, List.mem_append, not_or]
    exact ⟨⟨⟨source, by simp, hsource⟩, hbefore, hbetween⟩, houter⟩
  · rintro ⟨⟨⟨source, hmem, hsource⟩, hlabels⟩, houter⟩
    obtain ⟨before, between, heq⟩ := List.append_of_mem hmem
    rw [heq] at hlabels
    simp only [labelsOf_append, List.mem_append, not_or] at hlabels
    refine ⟨_, before, source, between, heq, hsource, hlabels.1, houter, fun h => hlabels.2 ?_, rfl⟩
    exact (List.sublist_cons_self _ _).filterMap _ |>.subset h

/-- Among orderly labels none has the name of another. -/
theorem nodup_labelsOf (h : Frame.AdmitsAll outer { isLoop } statements) :
    (labelsOf statements).Nodup := by
  induction statements using List.reverseRecOn with
  | nil => exact List.nodup_nil
  | append_singleton statements statement ih =>
    obtain ⟨hinit, hlast, -⟩ := admitsAll_append.mp h
    rw [labelsOf_append]
    refine (ih hinit).append ?_ ?_
    · cases hlabel : statement.label? <;> simp [labelsOf, hlabel]
    · intro name hmem hlabel
      obtain ⟨_, hlabel, hname⟩ := List.mem_filterMap.mp hlabel
      obtain rfl := List.mem_singleton.mp hlabel
      rw [Frame.Admits, hname] at hlast
      exact hlast (((covers_after isLoop outer statements).labels name).mpr hmem)

/-- Statements are all admitted if each is where it stands. -/
theorem admitsAll_of (h : ∀ before statement behind, statements = before ++ statement :: behind →
    (frame.after outer before).Admits statement) : frame.AdmitsAll outer statements := by
  induction statements using List.reverseRecOn with
  | nil => trivial
  | append_singleton statements statement ih =>
    refine admitsAll_append.mpr ⟨ih fun before other behind heq => ?_,
      h statements statement [] rfl, trivial⟩
    exact h before other (behind ++ [statement]) (by rw [heq, List.append_assoc, List.cons_append])

/-- A jump that crosses a local still does when statements follow. -/
theorem Crosses.append (h : Crosses outer statements) : Crosses outer (statements ++ more) := by
  obtain ⟨before, source, between, label, placement, after, rfl, hrest⟩ := h
  exact ⟨before, source, between, label, placement, after ++ more, by simp, hrest⟩

end Frame

open LuaSyntax.Frame

/-- Statements are orderly if and only if each of them is admitted behind those before it, and, where
a condition comes behind the block, that may still come. -/
theorem orderly_iff {outer : List String} {isRepeat isLoop : Bool} :
    Orderly outer isRepeat statements ↔ Frame.AdmitsAll outer { isLoop } statements ∧
      (isRepeat = true → (Frame.after outer { isLoop } statements).crossed = false) := by
  constructor
  · intro h
    refine ⟨admitsAll_of fun before statement behind heq => ?_, fun hrepeat => ?_⟩
    · have hcovers := covers_after isLoop outer before
      rw [Frame.Admits]
      cases hlabel : statement.label? with
      | some name =>
        have hdistinct := h.distinct
        rw [heq, labelsOf_append, labelsOf, labelsOf, List.filterMap_cons_some hlabel] at hdistinct
        show name ∉ _
        rw [hcovers.labels]
        exact fun hmem => (List.nodup_append.mp hdistinct).2.2 name hmem name
          (List.mem_cons_self) rfl
      | none =>
        refine Bool.eq_false_iff.mpr fun hcrossed => ?_
        obtain ⟨front, source, between, label, placement, back, rfl, hsource, -, houter, -, hlocal⟩ :=
          hcovers.crossed.mp hcrossed
        refine (h.entersNoLocal front source between label placement (back ++ statement :: behind) ?_
          hsource houter hlocal).1 statement ?_ hlabel
        · rw [heq, List.append_assoc, List.cons_append]
        · exact List.mem_append_right _ List.mem_cons_self
    · refine Bool.eq_false_iff.mpr fun hcrossed => ?_
      obtain ⟨before, source, between, label, placement, after, heq, hsource, -, houter, -, hlocal⟩ :=
        (covers_after isLoop outer statements).crossed.mp hcrossed
      have hnot := (h.entersNoLocal before source between label placement after heq hsource houter
        hlocal).2
      rw [hrepeat] at hnot
      cases hnot
  · rintro ⟨hadmits, hrepeat⟩
    have hdistinct := nodup_labelsOf hadmits
    refine ⟨hdistinct, fun before source between label placement after heq hsource houter hlocal => ?_⟩
    have hcrosses : Crosses outer (before ++ source :: between ++ [.labelStatement label placement]) := by
      rw [heq, List.append_assoc, List.cons_append, labelsOf_append, labelsOf, labelsOf,
        List.filterMap_cons_none (Statement.label?_of_escaping hsource), ← labelsOf, ← labelsOf,
        labelsOf_append, labelsOf, labelsOf, labelsOf,
        List.filterMap_cons_some (show Statement.label? _ = some label.name from rfl)] at hdistinct
      refine ⟨before, source, between, label, placement, [], rfl, hsource, fun hmem => ?_, houter,
        fun hmem => ?_, hlocal⟩
      · exact (List.nodup_append.mp hdistinct).2.2 _ hmem _
          (List.mem_append_right _ List.mem_cons_self) rfl
      · exact (List.nodup_append.mp (List.nodup_append.mp hdistinct).2.1).2.2 _ hmem _
          List.mem_cons_self rfl
    have hcrossed (more : List Statement) : (Frame.after outer { isLoop }
        (before ++ source :: between ++ [.labelStatement label placement] ++ more)).crossed = true :=
      (covers_after isLoop outer _).crossed.mpr hcrosses.append
    refine ⟨fun statement hmem hlabel => ?_, Bool.eq_false_iff.mpr fun hisRepeat => ?_⟩
    · obtain ⟨front, back, rfl⟩ := List.append_of_mem hmem
      rw [heq, ← List.cons_append, ← List.append_assoc,
        List.append_cons (before ++ source :: between)] at hadmits
      have hallowed := (admitsAll_append.mp hadmits).2.1
      rw [Frame.Admits, hlabel] at hallowed
      exact Bool.false_ne_true (hallowed.symm.trans (hcrossed front))
    · have hnot := hrepeat hisRepeat
      rw [heq, List.append_cons] at hnot
      exact Bool.false_ne_true (hnot.symm.trans (hcrossed after))

end LuaSyntax
