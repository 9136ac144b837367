import LuaSyntax.Grammar.Bookkeeping
import LuaSyntax.Proofs.Jumps.Reaches
import LuaSyntax.Proofs.Jumps.Waiting
import LuaSyntax.Scope
import LuaSyntax.Token.Feed
import LuaSyntax.Proofs.Tree.Akin

/-!
# Books of twin parses

Where a parse stands, some gotos wait for a label in the innermost open block and some labels stand in it:
those that were found since the block was opened. When a block closes that has another around it, the gotos
that have no label in the block are found in the other. When the body of a function closes they are lost;
each of them may then be to blame, if gotos are checked, and stands in the function as it is told of.

Comments, the names that a scope remembers, and so the tokens of a feed with the comments before them, are
akin if they differ at most in what an erasure takes away. What a scope does then goes on to be akin.
-/

namespace LuaSyntax

/-- A token that begins a `goto`. -/
def Token.IsGoto (token : Token) : Prop :=
  token.value = .keyword .gotoWord ∨ token.value = .identifier "goto"

/-- A token with the name `goto` may stand for one. -/
theorem Token.isGoto_of_name {token : Token} (h : token.name? = some "goto") : token.IsGoto := by
  rw [Token.name?] at h
  split at h
  · next hvalue => exact .inr (Option.some.inj h ▸ hvalue)
  · cases h

namespace Grammar

open Rule

/-! ## Gotos to guilty -/

/-- Whether a `goto` that begins with a token waits for a label behind a statement. -/
def Context.Waits (context : Context) (statement : Statement) (name : String) (token : Token) : Prop :=
  ∃ label stop, label.name = name ∧ token.IsGoto ∧
    statement.Strays label (.between context.options context.source token.start stop)

/-- Whether an error blames a `goto` that strays from a block. -/
def Context.Blames (context : Context) (error : ParseError) (block : Block) : Prop :=
  ∃ label token stop, token.IsGoto ∧
    block.Strays label (.between context.options context.source token.start stop) ∧
      error = errorAt context.source token .labelNotVisible [label.name]

/-- Whether an error blames a `goto` of a function that an observer was told of. -/
def Context.BlamesTold (context : Context) (error : ParseError) (log : List Event) : Prop :=
  ∃ function : Function, (.completed (.expression (.function function)) ∈ log ∨
    .completed (.statement (.functionStatement function)) ∈ log) ∧ context.Blames error function.body

/-- What was to blame for what was told is still to blame when more was told. -/
theorem Context.BlamesTold.mono {context : Context} {error : ParseError} {log log' : List Event}
    (h : context.BlamesTold error log) (hlog : ∀ event ∈ log, event ∈ log') :
    context.BlamesTold error log' := by
  obtain ⟨function, hmem, hblames⟩ := h
  exact ⟨function, hmem.imp (hlog _) (hlog _), hblames⟩

/-! ## What was found in a block -/

/-- Gotos, each told by its label and its token, and labels. -/
structure Findings where
  gotos : String → Token → Prop
  labels : List String

namespace Findings

def nothing : Findings := ⟨fun _ _ => False, []⟩

/-- What was found before and what was found then. -/
def also (found more : Findings) : Findings where
  gotos name token := found.gotos name token ∨ more.gotos name token
  labels := found.labels ++ more.labels

/-- What is left of findings when the block is closed that they were made in. -/
def left (found : Findings) : Findings where
  gotos name token := found.gotos name token ∧ name ∉ found.labels
  labels := []

/-- What is found in statements of a block. -/
def of (context : Context) (statements : List Statement) : Findings where
  gotos name token := ∃ statement ∈ statements, context.Waits statement name token
  labels := labelsOf statements

/-- What is left of the findings in blocks. -/
def inside (context : Context) (blocks : List Block) : Findings where
  gotos name token := ∃ block ∈ blocks, (of context block.statements).left.gotos name token
  labels := []

/-- Findings may be said to be others with more gotos and fewer labels. -/
structure Within (found found' : Findings) : Prop where
  gotos : ∀ name token, found.gotos name token → found'.gotos name token
  labels : found'.labels ⊆ found.labels

variable {found found' more : Findings}

/-- Findings lie within themselves. -/
theorem Within.refl (found : Findings) : found.Within found := ⟨fun _ _ => id, List.Subset.refl _⟩

/-- Findings that lie within others lie within what those lie within. -/
theorem Within.trans {found'' : Findings} (h : found.Within found') (h' : found'.Within found'') :
    found.Within found'' :=
  ⟨fun name token hgoto => h'.gotos name token (h.gotos name token hgoto), List.Subset.trans h'.labels h.labels⟩

/-- Findings lie within others behind the same first ones. -/
theorem Within.also (h : more.Within found') : (found.also more).Within (found.also found') :=
  ⟨fun name token => Or.imp_right (h.gotos name token),
    List.append_subset.mpr ⟨List.subset_append_left _ _, List.Subset.trans h.labels (List.subset_append_right _ _)⟩⟩

/-- To find nothing more is to have found no more. -/
theorem also_nothing : (found.also nothing).Within found :=
  ⟨fun _ _ hgoto => hgoto.resolve_right id, List.subset_append_left _ _⟩

/-- What was found is found when nothing more is. -/
theorem within_also_nothing : found.Within (found.also nothing) :=
  ⟨fun _ _ => .inl, List.append_subset.mpr ⟨List.Subset.refl _, List.nil_subset _⟩⟩

/-- How findings are grouped does not matter. -/
theorem also_assoc : ((found.also found').also more).Within (found.also (found'.also more)) where
  gotos _ _ := or_assoc.mp
  labels := by
    show found.labels ++ (found'.labels ++ more.labels) ⊆ _
    rw [← List.append_assoc]
    exact List.Subset.refl _

/-- What is found behind nothing is all that was found. -/
theorem nothing_also : (nothing.also found).Within found :=
  ⟨fun _ _ hgoto => hgoto.resolve_left id, List.Subset.refl _⟩

variable {context : Context}

/-- No statements are nothing to find. -/
theorem of_nil : nothing.Within (of context []) := ⟨fun _ _ => False.elim, List.Subset.refl _⟩

/-- What statements hold is found in two parts. -/
theorem of_append {statements others : List Statement} :
    ((of context statements).also (of context others)).Within (of context (statements ++ others)) where
  gotos name token hgoto := by
    rcases hgoto with ⟨statement, hmem, hwaits⟩ | ⟨statement, hmem, hwaits⟩
    · exact ⟨statement, List.mem_append_left _ hmem, hwaits⟩
    · exact ⟨statement, List.mem_append_right _ hmem, hwaits⟩
  labels := by
    show labelsOf (statements ++ others) ⊆ _
    rw [labelsOf_append]
    exact List.Subset.refl _

/-- What is left of statements is left of the block that they are in. -/
theorem left_of (statements : List Statement) (scope : Option (List Binding)) :
    (of context statements).left.Within (inside context [.mk statements scope]) :=
  ⟨fun _ _ hgoto => ⟨_, List.mem_singleton_self _, hgoto⟩, List.Subset.refl _⟩

/-- No blocks have nothing inside. -/
theorem inside_nil : nothing.Within (inside context []) := ⟨fun _ _ => False.elim, List.Subset.refl _⟩

/-- What is inside of blocks is found in two parts. -/
theorem inside_append {blocks others : List Block} :
    ((inside context blocks).also (inside context others)).Within (inside context (blocks ++ others)) where
  gotos name token hgoto := by
    rcases hgoto with ⟨block, hmem, hleft⟩ | ⟨block, hmem, hleft⟩
    · exact ⟨block, List.mem_append_left _ hmem, hleft⟩
    · exact ⟨block, List.mem_append_right _ hmem, hleft⟩
  labels := List.Subset.refl _

/-- What is left of the blocks of a statement is found in the statement. -/
theorem inside_blocks {statement : Statement} (hlabel : labelsOf [statement] = []) :
    (inside context (statement.blocks.map Prod.fst)).Within (of context [statement]) where
  gotos name token hgoto := by
    obtain ⟨block, hblock, ⟨inner, hinner, label, stop, rfl, htoken, hstrays⟩, hname⟩ := hgoto
    obtain ⟨⟨block, isRepeat⟩, hmem, rfl⟩ := List.mem_map.mp hblock
    exact ⟨statement, List.mem_singleton_self _, label, stop, rfl, htoken, .nested hmem hinner hstrays hname⟩
  labels := List.subset_nil.mpr hlabel

/-- A statement with neither blocks nor a label in it. -/
theorem nothing_of {statement : Statement} (hlabel : labelsOf [statement] = []) :
    nothing.Within (of context [statement]) :=
  ⟨fun _ _ => False.elim, List.subset_nil.mpr hlabel⟩

/-- A `goto` that is left of the outermost block of a function is to blame. -/
theorem blames_of_left {statements : List Statement} {scope : Option (List Binding)} {name : String}
    {token : Token} (h : (of context statements).left.gotos name token) :
    context.Blames (errorAt context.source token .labelNotVisible [name]) (.mk statements scope) := by
  obtain ⟨⟨statement, hmem, label, stop, rfl, htoken, hstrays⟩, hname⟩ := h
  exact ⟨label, token, stop, htoken, ⟨⟨statement, hmem, hstrays⟩, hname⟩, rfl⟩

end Findings

/-- What was found in the innermost block since the record of jumps was one of some records. -/
def State.Found (since : Jumps → Prop) (found : Findings) (s : State) : Prop :=
  ∃ origin, since origin ∧ Jumps.Grows found.gotos found.labels origin s.jumps

variable {since : Jumps → Prop} {found found' : Findings} {s : State}

/-- A state that has found some things has found all that they lie within. -/
theorem State.Found.mono (h : s.Found since found) (hfound : found.Within found') :
    s.Found since found' := by
  obtain ⟨origin, horigin, hgrows⟩ := h
  exact ⟨origin, horigin, hgrows.mono hfound.gotos hfound.labels⟩

/-- A state in which things were found has coherent jumps. -/
theorem State.Found.coherent (h : s.Found since found) : s.jumps.Coherent := by
  obtain ⟨origin, -, hgrows⟩ := h
  exact hgrows.coherent

/-- What was found first and what was found since then. -/
theorem State.Found.also {s' : State} (h : s.Found since found) (h' : s'.Found (· = s.jumps) found') :
    s'.Found since (found.also found') := by
  obtain ⟨origin, horigin, hgrows⟩ := h
  obtain ⟨_, rfl, hgrows'⟩ := h'
  exact ⟨origin, horigin, hgrows.trans hgrows'⟩

/-- A state with coherent jumps has found nothing since then. -/
theorem State.Found.refl (h : s.jumps.Coherent) : s.Found (· = s.jumps) .nothing :=
  ⟨s.jumps, rfl, .refl h⟩

end Grammar

/-! ## Books that are akin -/

instance : Erasable Comment where
  erase erasure comment := { comment with placement := erasure.placement comment.placement }

instance : Erasable Binding where
  erase erasure binding := { binding with identifier := binding.identifier.map (·.erase erasure) }

instance : Erasable Delivery where
  erase erasure delivery := { delivery with comments := Erasable.erase erasure delivery.comments }

instance {ε α : Type} [Erasable α] : Erasable (Except ε α) where
  erase erasure := Except.map (Erasable.erase erasure)

instance : Erasable Feed where
  erase erasure feed := ⟨Erasable.erase erasure feed.deliveries, Erasable.erase erasure feed.ending⟩

instance : Erasable Scope where
  erase erasure scope :=
    { scope with
      frames := Erasable.erase erasure scope.frames
      unresolved := Erasable.erase erasure scope.unresolved }

instance : Erasable Chunk where
  erase erasure chunk :=
    { body := Erasable.erase erasure chunk.body
      comments := Erasable.erase erasure chunk.comments
      globals := Erasable.erase erasure chunk.globals
      placement := Erasable.erase erasure chunk.placement }

/-- Takes away where things stand. -/
def Erasure.placements : Erasure where
  placement _ := .none
  isLocal := id
  scope := Option.map (List.map fun binding =>
    { binding with identifier := binding.identifier.map fun name => { name with placement := .none } })

/-- An erasure that takes away all that resolution adds. -/
structure Erasure.Forgets (erasure : Erasure) : Prop where
  isLocal : ∀ a b, erasure.isLocal a = erasure.isLocal b
  scope : ∀ a b, erasure.scope a = erasure.scope b

variable {erasure : Erasure} {name name' : Identifier}

/-! ### Feeds -/

section

variable {ε α : Type} [Erasable α] {a b : α} {e e' : ε}

/-- Results are akin if their values are. -/
@[simp] theorem akin_ok : Akin erasure (.ok a : Except ε α) (.ok b) ↔ Akin erasure a b := by
  simp [Akin, Erasable.erase, Except.map]

/-- Errors are akin only if they are equal. -/
@[simp] theorem akin_error : Akin erasure (.error e : Except ε α) (.error e') ↔ e = e' := by
  simp [Akin, Erasable.erase, Except.map]

/-- A value is not akin to an error. -/
@[simp] theorem not_akin_ok_error : ¬ Akin erasure (.ok a : Except ε α) (.error e) := by
  simp [Akin, Erasable.erase, Except.map]

/-- An error is not akin to a value. -/
@[simp] theorem not_akin_error_ok : ¬ Akin erasure (.error e : Except ε α) (.ok a) := by
  simp [Akin, Erasable.erase, Except.map]

end

/-- What feeds that are akin give next is akin. -/
theorem Akin.next {feed feed' : Feed} (h : Akin erasure feed feed') :
    Akin erasure feed.next feed'.next := by
  have hnext (feed : Feed) : Erasable.erase erasure feed.next = (Erasable.erase erasure feed).next := by
    obtain ⟨deliveries, ending⟩ := feed
    cases deliveries with
    | nil => cases ending <;> rfl
    | cons delivery rest => rfl
  show Erasable.erase erasure feed.next = Erasable.erase erasure feed'.next
  rw [hnext, hnext]
  exact congrArg Feed.next h

/-- A token without the comments before it. -/
def Delivery.bare (delivery : Delivery) : Delivery := { delivery with comments := [] }

/-- The tokens of a feed without comments. -/
def Feed.bare (feed : Feed) : Feed := ⟨feed.deliveries.map Delivery.bare, feed.ending.map Delivery.bare⟩

/-- A feed is of the same size without its comments. -/
theorem Feed.size_bare (feed : Feed) : feed.bare.size = feed.size := List.length_map _

/-- Feeds with the same tokens fail alike, or they give the same token and have the same tokens behind it. -/
theorem Feed.next_bare (feed : Feed) :
    feed.bare.next = feed.next.map fun (delivery, rest) => (delivery.bare, rest.bare) := by
  obtain ⟨deliveries, ending⟩ := feed
  cases deliveries with
  | nil => cases ending <;> rfl
  | cons delivery rest => rfl

/-! ### Scopes -/

namespace Scope

variable {scope scope' : Scope}

/-- Scopes are akin if they are both tracked or not and all names in them are akin. -/
theorem akin_iff : Akin erasure scope scope' ↔ scope.enabled = scope'.enabled ∧
    Akin erasure scope.frames scope'.frames ∧ Akin erasure scope.unresolved scope'.unresolved :=
  ⟨fun h => ⟨h.map_eq enabled fun _ => rfl, congrArg frames h, congrArg unresolved h⟩,
    fun ⟨henabled, hframes, hnames⟩ => (congr (congrArg₂ Scope.mk henabled hframes) hnames :)⟩

/-- Scopes that are akin are opened to what is akin. -/
theorem akin_push (h : Akin erasure scope scope') : Akin erasure scope.push scope'.push := by
  obtain ⟨henabled, hframes, hnames⟩ := akin_iff.mp h
  rw [push, push, henabled]
  split
  · exact akin_iff.mpr ⟨rfl, akin_cons.mpr ⟨rfl, hframes⟩, hnames⟩
  · exact h

/-- What a scope gives of its innermost frame is akin if the frames are. -/
theorem akin_pop (h : Akin erasure scope scope') (hscope : ∀ frame frame' : List Binding,
      Akin erasure frame frame' → erasure.scope (some frame) = erasure.scope (some frame')) :
    Akin erasure scope.pop.1 scope'.pop.1 ∧ Akin erasure scope.pop.2 scope'.pop.2 := by
  obtain ⟨henabled, hframes, hnames⟩ := akin_iff.mp h
  rw [pop, pop, henabled]
  split
  · cases hleft : scope.frames with
    | nil =>
      cases hright : scope'.frames with
      | nil => exact ⟨rfl, h⟩
      | cons => rw [hleft, hright] at hframes; exact absurd hframes not_akin_nil_cons
    | cons frame frames =>
      cases hright : scope'.frames with
      | nil => rw [hleft, hright] at hframes; exact absurd hframes not_akin_cons_nil
      | cons frame' frames' =>
        rw [hleft, hright] at hframes
        obtain ⟨hframe, hframes⟩ := akin_cons.mp hframes
        exact ⟨hscope _ _ hframe, akin_iff.mpr ⟨rfl, hframes, hnames⟩⟩
  · exact ⟨rfl, h⟩

/-- Bindings that are akin are added to scopes that are akin. -/
theorem akin_bind (h : Akin erasure scope scope') {binding binding' : Binding}
    (hbinding : Akin erasure binding binding') : Akin erasure (scope.bind binding) (scope'.bind binding') := by
  obtain ⟨henabled, hframes, hnames⟩ := akin_iff.mp h
  rw [bind, bind]
  cases hleft : scope.frames with
  | nil =>
    cases hright : scope'.frames with
    | nil => exact h
    | cons => rw [hleft, hright] at hframes; exact absurd hframes not_akin_nil_cons
  | cons frame frames =>
    cases hright : scope'.frames with
    | nil => rw [hleft, hright] at hframes; exact absurd hframes not_akin_cons_nil
    | cons frame' frames' =>
      rw [hleft, hright] at hframes
      obtain ⟨hframe, hframes⟩ := akin_cons.mp hframes
      exact akin_iff.mpr ⟨henabled, akin_cons.mpr ⟨hframe.append (akin_cons.mpr ⟨hbinding, rfl⟩), hframes⟩,
        hnames⟩

/-- The names that are local are akin if the names are. -/
theorem akin_local (h : Akin erasure name name') (isLocal : Bool) :
    Akin erasure { name with isLocal } { name' with isLocal } :=
  congrArg₂ (Identifier.mk · (erasure.isLocal isLocal) ·) h.name_eq (congrArg Identifier.placement h)

/-- A bare name is declared to what is akin. -/
theorem akin_declareName (h : Akin erasure scope scope') (name : String) :
    Akin erasure (scope.declareName name) (scope'.declareName name) := by
  rw [declareName, declareName, (akin_iff.mp h).1]
  split
  · exact akin_bind h rfl
  · exact h

/-- Names that are akin are declared to what is akin. -/
theorem akin_declare (h : Akin erasure scope scope') (hname : Akin erasure name name') :
    Akin erasure (scope.declare name).1 (scope'.declare name').1 ∧
      Akin erasure (scope.declare name).2 (scope'.declare name').2 := by
  rw [declare, declare, (akin_iff.mp h).1]
  split
  · have hlocal := akin_local hname true
    refine ⟨hlocal, akin_bind h ?_⟩
    exact congrArg₂ Binding.mk hname.name_eq (congrArg some hlocal)
  · exact ⟨hname, h⟩

/-- In scopes that are akin the same names are in view. -/
theorem isVisible_eq (h : Akin erasure scope scope') (name : String) :
    scope.isVisible name = scope'.isVisible name := by
  refine (akin_iff.mp h).2.1.map_eq
    (fun frames => frames.any fun frame => frame.any fun binding => binding.name == name) fun frames => ?_
  simp only [Erasable.erase, List.any_map, Function.comp_def]

/-- In scopes that are akin the same names are noted. -/
theorem isUnresolved_eq (h : Akin erasure scope scope') (name : String) :
    scope.isUnresolved name = scope'.isUnresolved name := by
  refine (akin_iff.mp h).2.2.map_eq (fun names => names.any fun identifier => identifier.name == name)
    fun names => ?_
  simp only [Erasable.erase, List.any_map, Function.comp_def, Identifier.erase]

/-- Names that are akin are resolved to what is akin. -/
theorem akin_resolve (h : Akin erasure scope scope') (hname : Akin erasure name name') :
    Akin erasure (scope.resolve name).2.1 (scope'.resolve name').2.1 ∧
      Akin erasure (scope.resolve name).2.2 (scope'.resolve name').2.2 := by
  obtain ⟨henabled, hframes, hnames⟩ := akin_iff.mp h
  have hvisible : scope.isVisible name.name = scope'.isVisible name'.name :=
    hname.name_eq ▸ isVisible_eq h name.name
  have hunresolved : scope.isUnresolved name.name = scope'.isUnresolved name'.name :=
    hname.name_eq ▸ isUnresolved_eq h name.name
  rw [resolve, resolve, henabled, hvisible, hunresolved]
  split
  · split
    · exact ⟨akin_local hname true, h⟩
    · split
      · exact ⟨hname, h⟩
      · exact ⟨hname, akin_iff.mpr ⟨rfl, hframes, hnames.append (akin_cons.mpr ⟨hname, rfl⟩)⟩⟩
  · exact ⟨hname, h⟩

/-- What is noted in scopes that are akin is akin. -/
theorem akin_takeUnresolved (h : Akin erasure scope scope') :
    Akin erasure scope.takeUnresolved.1 scope'.takeUnresolved.1 ∧
      Akin erasure scope.takeUnresolved.2 scope'.takeUnresolved.2 := by
  obtain ⟨henabled, hframes, hnames⟩ := akin_iff.mp h
  rw [takeUnresolved, takeUnresolved, henabled]
  split
  · exact ⟨akin_some.mpr hnames, akin_iff.mpr ⟨rfl, hframes, rfl⟩⟩
  · exact ⟨rfl, h⟩

/-! ### Scopes that are not akin -/

/-- Where it is forgotten which names are local, they need not be so in both. -/
theorem akin_of_forgets (h : erasure.Forgets) (hname : Akin erasure name name') (left right : Bool) :
    Akin erasure { name with isLocal := left } { name' with isLocal := right } := by
  have hspelled := akin_local hname left
  rw [Akin] at hspelled ⊢
  rw [hspelled]
  exact congrArg (Identifier.mk name'.name · (erasure.placement name'.placement)) (h.isLocal left right)

/-- A declared name is the name that was given, or it is marked as local. -/
theorem declare_fst (scope : Scope) (name : Identifier) :
    ∃ isLocal, (scope.declare name).1 = { name with isLocal } := by
  unfold declare
  split
  · exact ⟨true, rfl⟩
  · exact ⟨name.isLocal, rfl⟩

/-- A used name is the name that was given, or it is marked as local. -/
theorem resolve_name (scope : Scope) (name : Identifier) :
    ∃ isLocal, (scope.resolve name).2.1 = { name with isLocal } := by
  unfold resolve
  split
  · split
    · exact ⟨true, rfl⟩
    · split <;> exact ⟨name.isLocal, rfl⟩
  · exact ⟨name.isLocal, rfl⟩

end Scope

/-! ### Erasing nothing -/

/-- Chunks that differ in nothing that matters are equal. -/
theorem Chunk.eq_of_akin {chunk chunk' : Chunk} (h : Akin .nothing chunk chunk') : chunk = chunk' := by
  have hchunk (chunk : Chunk) : Erasable.erase .nothing chunk = chunk := by
    obtain ⟨body, comments, globals, placement⟩ := chunk
    have hcomments : Erasable.erase .nothing comments = comments := by
      cases comments with
      | none => rfl
      | some comments => exact congrArg some (List.map_id comments)
    have hglobals : Erasable.erase .nothing globals = globals := by
      cases globals with
      | none => rfl
      | some globals => exact congrArg some (List.map_id globals)
    exact congr (congrArg₂ (Chunk.mk · · · placement) body.erase_nothing hcomments) hglobals
  rw [← hchunk chunk, ← hchunk chunk']
  exact h

/-- Frames that differ in nothing that matters are listed alike. -/
theorem Erasure.scope_nothing {frame frame' : List Binding} (h : Akin .nothing frame frame') :
    Erasure.nothing.scope (some frame) = Erasure.nothing.scope (some frame') := by
  have hbinding (binding : Binding) : Erasable.erase .nothing binding = binding :=
    congrArg (Binding.mk binding.name) Option.map_id'
  have hframe (frame : List Binding) : Erasable.erase .nothing frame = frame :=
    map_erase_nothing hbinding frame
  rw [← hframe frame, ← hframe frame']
  exact congrArg some h

end LuaSyntax
