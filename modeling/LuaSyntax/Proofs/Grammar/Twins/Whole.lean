import LuaSyntax.Proofs.Grammar.Depth.Levels
import LuaSyntax.Proofs.Grammar.Accepted
import LuaSyntax.Proofs.Grammar.Told.Nodes
import LuaSyntax.Proofs.Grammar.Twins.Chunk
import LuaSyntax.Proofs.Grammar.Twins.Lexer
import LuaSyntax.Proofs.Jumps.Reaches

/-!
# Checked gotos and annotations

A source is read alike whether gotos are checked or not, until the body of a function or the chunk ends and
a `goto` in it has found no label. So a source is accepted with its gotos checked if and only if it is
accepted without and every `goto` in it has a label that is visible from it, and otherwise the error blames
one that has none. Which one that is can be told by its place, whether places were asked for or not: the
source is also read alike with and without them.

What else a caller asks to be kept with a tree is comments, resolved names, lines and columns, and byte ranges,
and whether an input that ends too soon is waited for concerns only the caller. Parses of a source that differ
in nothing else fail with the same error, or they give the same tree. What both keep is the same too: `shared`
is the erasure that leaves of the annotations what both parses ask for.
-/

namespace LuaSyntax

open Grammar
open Grammar.Rule (errorAt)

variable {erasure : Erasure} {source : Text} {a b : ParseOptions}

/-- Whether an error blames, at the token that it begins with, a `goto` of a chunk that has no label that is
visible from it. -/
def Chunk.BlamedBy (chunk : Chunk) (options : ParseOptions) (source : Text) (error : ParseError) : Prop :=
  ∃ (label : Identifier) (token : Token) (stop : Place), token.IsGoto ∧
    chunk.Unresolved label (.between options source token.start stop) ∧
      error = errorAt source token .labelNotVisible [label.name]

/-- What is to blame in a block that a chunk sees is to blame in the chunk. -/
theorem Grammar.Context.Blames.blamedBy {context : Context} {error : ParseError} {block : Block}
    {chunk : Chunk} (h : context.Blames error block)
    (hsees : chunk.Sees (labelsOf block.statements) block) :
    chunk.BlamedBy context.options context.source error := by
  obtain ⟨label, token, stop, hgoto, hstrays, rfl⟩ := h
  exact ⟨label, token, stop, hgoto, hstrays.unresolved hsees, rfl⟩

/-- A function that an observer was told of is in the chunk. -/
theorem blamedBy_of_told {chunk : Chunk} {s : State} {error : ParseError}
    (hrun : Grammar.chunkOver (Grammar.levels nestingLimit) (.ofFeed a source (Lexer.feed a source))
      (.initial a (Lexer.feed a source)) = (.ok chunk, s))
    (h : (Context.ofFeed a source (Lexer.feed a source)).BlamesTold error s.log) :
    chunk.BlamedBy a source error := by
  have hoff : parseWithEvents a source = .of (.ok chunk, s) := (run_eq_levels ..).trans (congrArg Outcome.of hrun)
  have hparse : parse a source = .ok chunk := congrArg Outcome.result hoff
  have hlog : (parseWithEvents a source).events = s.log.reverse := congrArg Outcome.events hoff
  have htold := (told_of_run hparse).1
  have hpart {node : Node} (hmem : .completed node ∈ s.log) (hpart : (Event.completed node).part? = some node)
      (hread : ∀ other : Node, other.asRead = node → other = node) : node ∈ (Node.chunk chunk).postorder := by
    have hnode : node ∈ (parseWithEvents a source).events.filterMap Event.part? :=
      List.mem_filterMap.mpr ⟨_, hlog ▸ List.mem_reverse.mpr hmem, hpart⟩
    rw [show (parseWithEvents a source).events.filterMap Event.part? = _ from htold] at hnode
    obtain ⟨other, hother, heq⟩ := List.mem_map.mp hnode
    exact hread other heq ▸ hother
  obtain ⟨function, hmem, hblames⟩ := h
  refine hblames.blamedBy ((wellFormed_of_parse hparse).sees_body (hmem.imp (fun hmem => ?_) fun hmem => ?_))
  · exact hpart hmem rfl fun other heq => by cases other <;> cases heq; rfl
  · exact hpart hmem rfl fun other heq => by cases other <;> cases heq; rfl

/-- A source is read alike under options that differ in what is kept with the tree, up to what is kept under
one of them only. -/
theorem parse_kin (h : a.Kin erasure source b)
    (hforgets : a.trackScopes ≠ b.trackScopes → erasure.Forgets)
    (hchecks : a.checkGotoLabels = true → b.checkGotoLabels = true)
    (hscope : ∀ frame frame' : List Binding, Akin erasure frame frame' →
      erasure.scope (some frame) = erasure.scope (some frame')) :
    (∃ chunk chunk', parse a source = .ok chunk ∧ parse b source = .ok chunk' ∧
      Akin erasure chunk.body chunk'.body ∧ Akin erasure chunk.placement chunk'.placement ∧
      (a.collectComments = b.collectComments → Akin erasure chunk.comments chunk'.comments) ∧
      (a.trackScopes = b.trackScopes → Akin erasure chunk.globals chunk'.globals)) ∨
    (∃ error, parse a source = .error error ∧ parse b source = .error error) ∨
    (a.checkGotoLabels = false ∧ b.checkGotoLabels = true ∧ ∃ error, parse b source = .error error ∧
      ∀ chunk, parse a source = .ok chunk → chunk.BlamedBy a source error) := by
  obtain ⟨hfeed, hakin⟩ := Lexer.feed_kin h
  have hhas (feature : Feature) : a.has feature = b.has feature := by
    rw [ParseOptions.has, ParseOptions.has, h.dialect]
  let T : Twins :=
    { left := .ofFeed a source (Lexer.feed a source)
      right := .ofFeed b source (Lexer.feed b source)
      erasure
      excused _ := False
      strays _ := False }
  have hturns : T.left.turns = T.right.turns := by
    show (Lexer.feed a source).size + 3 = (Lexer.feed b source).size + 3
    rw [← Feed.size_bare, hfeed, Feed.size_bare]
  have : T.Sound :=
    { source := rfl
      turns := hturns
      overrun := rfl
      features := fun feature _ => hhas feature
      typed := .inl (hhas _)
      forgets := hforgets
      checks := hchecks
      placement := h.placement
      scope := hscope }
  have hstart : T.Related (.initial a (Lexer.feed a source)) (.initial b (Lexer.feed b source)) := by
    refine ⟨hfeed, hakin, rfl, rfl, rfl, fun _ => rfl, fun htrack => ?_, rfl, ?_⟩
    · exact Scope.akin_iff.mpr ⟨htrack, rfl, rfl⟩
    · simp only [State.initial, hhas .labels]
      rfl
  have hends := Twins.ends_chunk (Twins.fit_levels nestingLimit) hstart rfl
  obtain ⟨x, s, ha⟩ : ∃ x s, Grammar.chunkOver (Grammar.levels nestingLimit) T.left (.initial a (Lexer.feed a source)) = (x, s) :=
    ⟨_, _, rfl⟩
  obtain ⟨y, t, hb⟩ : ∃ y t, Grammar.chunkOver (Grammar.levels nestingLimit) T.right (.initial b (Lexer.feed b source)) = (y, t) :=
    ⟨_, _, rfl⟩
  have hparse : parse a source = x := (result_run ..).trans (congrArg Prod.fst ha)
  have hparse' : parse b source = y := (result_run ..).trans (congrArg Prod.fst hb)
  rw [ha, hb] at hends
  cases hends with
  | both hbody hplacement hcomments hglobals =>
    exact .inl ⟨_, _, hparse, hparse', hbody, hplacement, hcomments, hglobals⟩
  | failed => exact .inr (.inl ⟨_, hparse, hparse'⟩)
  | alone hl hr htold =>
    refine .inr (.inr ⟨hl, hr, _, hparse', fun chunk hchunk => ?_⟩)
    obtain rfl : x = .ok chunk := hparse.symm.trans hchunk
    rcases htold chunk s rfl with hblames | htold
    · exact hblames.blamedBy .chunk
    · exact blamedBy_of_told ha htold
  | apart hapart =>
    cases x with
    | ok chunk => exact (hapart.told chunk s rfl).1.elim fun _ h => h.2.elim
    | error error => exact (hapart.failed error s rfl).elim

/-- A source is read alike under options that differ in what an erasure takes away. -/
theorem parse_alike (h : a.Alike erasure source b)
    (hchecks : a.checkGotoLabels = true → b.checkGotoLabels = true)
    (hscope : ∀ frame frame' : List Binding, Akin erasure frame frame' →
      erasure.scope (some frame) = erasure.scope (some frame')) :
    (∃ chunk chunk', parse a source = .ok chunk ∧ parse b source = .ok chunk' ∧
      Akin erasure chunk chunk') ∨
    (∃ error, parse a source = .error error ∧ parse b source = .error error) ∨
    (a.checkGotoLabels = false ∧ b.checkGotoLabels = true ∧ ∃ error, parse b source = .error error ∧
      ∀ chunk, parse a source = .ok chunk → chunk.BlamedBy a source error) := by
  refine (parse_kin h.kin (absurd h.scopes) hchecks hscope).imp_left ?_
  rintro ⟨chunk, chunk', hleft, hright, hbody, hplacement, hcomments, hglobals⟩
  have hchunk := congr (congrArg₂ Chunk.mk hbody (hcomments h.collects)) (hglobals h.scopes)
  exact ⟨chunk, chunk', hleft, hright, (congr hchunk hplacement :)⟩

/-! ## Checked gotos -/

/-- Options that ask for certain places and leave gotos unchecked. -/
def ParseOptions.recording (options : ParseOptions) (locations ranges : Bool) : ParseOptions :=
  { options with recordLocations := locations, recordRanges := ranges, checkGotoLabels := false }

/-- Places make no difference but that they stand in the tree. -/
theorem ParseOptions.alike_recording (options : ParseOptions) (source : Text)
    (locations ranges checks : Bool) : ParseOptions.Alike .placements source
      (options.recording locations ranges) { options with checkGotoLabels := checks } :=
  ⟨rfl, rfl, rfl, rfl, fun _ _ => rfl⟩

/-- A source is accepted with its gotos checked if and only if it is accepted without and every `goto` in it
has a label that is visible from it. The chunk is then the same. If it is accepted only without, the error
blames a `goto` that has no visible label, which stands at that place in the chunk that is read with any
choice of places. -/
theorem gotos_checked {options : ParseOptions} (hlabels : options.has .labels = true) (source : Text) :
    (∀ chunk, parse { options with checkGotoLabels := true } source = .ok chunk ↔
      parse { options with checkGotoLabels := false } source = .ok chunk ∧ chunk.Resolved) ∧
    ∀ chunk error, parse { options with checkGotoLabels := false } source = .ok chunk →
      parse { options with checkGotoLabels := true } source = .error error → ∀ locations ranges,
        ∃ recorded, parse (options.recording locations ranges) source = .ok recorded ∧
          Akin .placements recorded chunk ∧
            recorded.BlamedBy (options.recording locations ranges) source error := by
  have hsame : ParseOptions.Alike .nothing source { options with checkGotoLabels := false }
      { options with checkGotoLabels := true } := ⟨rfl, rfl, rfl, rfl, fun _ _ => rfl⟩
  refine ⟨fun chunk => ⟨fun hchecked => ?_, fun ⟨hunchecked, hresolved⟩ => ?_⟩,
    fun chunk error hunchecked hchecked locations ranges => ?_⟩
  · refine ⟨?_, (wellFormed_of_parse hchecked).resolved hlabels⟩
    rcases parse_alike hsame nofun fun _ _ => Erasure.scope_nothing with
      ⟨_, _, hleft, hright, hchunk⟩ | ⟨_, -, hright⟩ | ⟨-, -, _, hright, -⟩
    · rw [Chunk.eq_of_akin hchunk] at hleft
      rw [hleft, ← hright, hchecked]
    · rw [hchecked] at hright
      cases hright
    · rw [hchecked] at hright
      cases hright
  · rcases parse_alike hsame nofun fun _ _ => Erasure.scope_nothing with
      ⟨_, _, hleft, hright, hchunk⟩ | ⟨_, hleft, -⟩ | ⟨-, -, _, -, hblamed⟩
    · rw [← Chunk.eq_of_akin hchunk] at hright
      rw [hright, ← hleft, hunchecked]
    · rw [hunchecked] at hleft
      cases hleft
    · obtain ⟨_, _, _, -, hunresolved, -⟩ := hblamed chunk hunchecked
      exact absurd hresolved hunresolved.not_resolved
  · rcases parse_alike (options.alike_recording source locations ranges false) nofun
      fun _ _ h => congrArg some h with
      ⟨recorded, _, hrecorded, hright, hchunk⟩ | ⟨_, -, hright⟩ | ⟨-, hchecks, -⟩
    · obtain rfl : _ = chunk := Except.ok.inj (hright.symm.trans hunchecked)
      refine ⟨recorded, hrecorded, hchunk, ?_⟩
      rcases parse_alike (options.alike_recording source locations ranges true) nofun
        fun _ _ h => congrArg some h with
        ⟨_, _, -, hright, -⟩ | ⟨_, hleft, -⟩ | ⟨-, -, _, hright, hblamed⟩
      · rw [hchecked] at hright
        cases hright
      · rw [hrecorded] at hleft
        cases hleft
      · obtain rfl : error = _ := Except.error.inj (hchecked.symm.trans hright)
        exact hblamed recorded hrecorded
    · rw [hunchecked] at hright
      cases hright
    · cases hchecks

/-- A label behind a block is visible in the block, but not in a function that it stands behind. -/
theorem gotos_checked_function :
    (∃ chunk, parse { dialect := .lua52, checkGotoLabels := true } "do goto l end ::l::".toList = .ok chunk ∧
      chunk.Resolved) ∧
    ∃ chunk recorded error,
      parse { dialect := .lua52 } "local function f() goto l end ::l::".toList = .ok chunk ∧
        ¬ chunk.Resolved ∧
        parse { dialect := .lua52, checkGotoLabels := true }
          "local function f() goto l end ::l::".toList = .error error ∧ error.offset = 19 ∧
        parse { dialect := .lua52, recordRanges := true }
          "local function f() goto l end ::l::".toList = .ok recorded ∧
        recorded.BlamedBy { dialect := .lua52, recordRanges := true }
          "local function f() goto l end ::l::".toList error := by
  have hlabels : ParseOptions.has { dialect := .lua52 } .labels = true := rfl
  constructor
  · have haccepted : (parse { dialect := .lua52, checkGotoLabels := true }
        "do goto l end ::l::".toList).toBool = true := by decide +kernel
    cases hparse : parse { dialect := .lua52, checkGotoLabels := true } "do goto l end ::l::".toList with
    | error error =>
      rw [hparse] at haccepted
      cases haccepted
    | ok chunk => exact ⟨chunk, rfl, (((gotos_checked hlabels _).1 chunk).mp hparse).2⟩
  · have haccepted : (parse { dialect := .lua52 }
        "local function f() goto l end ::l::".toList).toBool = true := by decide +kernel
    have hrefused : ((parse { dialect := .lua52, checkGotoLabels := true }
        "local function f() goto l end ::l::".toList).map fun _ => ()).mapError ParseError.offset =
          .error 19 := by
      decide +kernel
    cases hunchecked : parse { dialect := .lua52 } "local function f() goto l end ::l::".toList with
    | error error =>
      rw [hunchecked] at haccepted
      cases haccepted
    | ok chunk =>
      cases hchecked : parse { dialect := .lua52, checkGotoLabels := true }
          "local function f() goto l end ::l::".toList with
      | ok chunk =>
        rw [hchecked] at hrefused
        cases hrefused
      | error error =>
        rw [hchecked] at hrefused
        obtain ⟨recorded, hrecorded, -, hblamed⟩ :=
          (gotos_checked hlabels _).2 chunk error hunchecked hchecked false true
        refine ⟨chunk, recorded, error, rfl, fun hresolved => ?_, rfl, Except.error.inj hrefused, hrecorded,
          hblamed⟩
        have haccepted := ((gotos_checked hlabels _).1 chunk).mpr ⟨hunchecked, hresolved⟩
        cases hchecked.symm.trans haccepted

/-! ## Annotations -/

namespace ParseOptions

/-- Options that differ at most in what is kept with a tree. -/
structure ReadAlike (a b : ParseOptions) : Prop where
  dialect : a.dialect = b.dialect
  extendedIdentifiers : a.extendedIdentifiers = b.extendedIdentifiers
  checkGotoLabels : a.checkGotoLabels = b.checkGotoLabels

/-- What two parses both say of where something stands. -/
def sharedPlacement (a b : ParseOptions) (placement : Placement) : Placement where
  location := if a.recordLocations && b.recordLocations then placement.location else none
  range := if a.recordRanges && b.recordRanges then placement.range else none

/-- A declared name with what two parses both say of where it stands. -/
def sharedBinding (a b : ParseOptions) (binding : Binding) : Binding :=
  { binding with
    identifier := binding.identifier.map fun name =>
      { name with placement := a.sharedPlacement b name.placement } }

/-- Takes away the annotations that two parses do not both ask for. -/
def shared (a b : ParseOptions) : Erasure where
  placement := a.sharedPlacement b
  isLocal isLocal := a.trackScopes && b.trackScopes && isLocal
  scope scope := if a.trackScopes && b.trackScopes then scope.map (List.map (a.sharedBinding b)) else none

/-- What two parses both say of the place of a node is the same. -/
theorem akin_between_shared (a b : ParseOptions) (source : Text) (start stop : Place) :
    Akin (a.shared b) (.between a source start stop : Placement) (.between b source start stop) := by
  have hlocation : (a.sharedPlacement b (.between a source start stop)).location =
      (a.sharedPlacement b (.between b source start stop)).location := by
    unfold sharedPlacement Placement.between
    cases a.recordLocations <;> cases b.recordLocations <;> rfl
  have hrange : (a.sharedPlacement b (.between a source start stop)).range =
      (a.sharedPlacement b (.between b source start stop)).range := by
    unfold sharedPlacement Placement.between
    cases a.recordRanges <;> cases b.recordRanges <;> rfl
  exact congrArg₂ Placement.mk hlocation hrange

/-- Of parses of which one only resolves names nothing is shared that is known from it. -/
theorem forgets_shared (h : a.trackScopes ≠ b.trackScopes) : (a.shared b).Forgets := by
  have hnever : (a.trackScopes && b.trackScopes) = false := by
    cases ha : a.trackScopes <;> cases hb : b.trackScopes <;> simp_all
  constructor
  · intro left right
    show (a.trackScopes && b.trackScopes && left) = (a.trackScopes && b.trackScopes && right)
    rw [hnever, Bool.false_and, Bool.false_and]
  · intro left right
    simp only [shared, hnever, Bool.false_eq_true, if_false]

/-- What is said of a name is said of what is left of it. -/
theorem sharedBinding_erase (a b : ParseOptions) (hboth : (a.trackScopes && b.trackScopes) = true)
    (binding : Binding) : Erasable.erase (a.shared b) binding = a.sharedBinding b binding := by
  have hname : Identifier.erase (a.shared b) =
      fun name => { name with placement := a.sharedPlacement b name.placement } := by
    funext name
    show Identifier.mk name.name (a.trackScopes && b.trackScopes && name.isLocal) _ = _
    rw [hboth, Bool.true_and]
    rfl
  show Binding.mk binding.name (binding.identifier.map (Identifier.erase (a.shared b))) = _
  rw [hname]
  rfl

/-- Frames that share what both options ask for are listed alike. -/
theorem shared_scope {frame frame' : List Binding} (h : Akin (a.shared b) frame frame') :
    (a.shared b).scope (some frame) = (a.shared b).scope (some frame') := by
  unfold shared
  dsimp only
  split
  · next hboth =>
    have hframe : frame.map (a.sharedBinding b) = frame'.map (a.sharedBinding b) := by
      rw [← funext (sharedBinding_erase a b hboth)]
      exact h
    exact congrArg some hframe
  · rfl

end ParseOptions

/-- Chunks that were read under two options: they are the same but for annotations, and of these they have in
common what both options ask for. -/
structure Chunk.Agrees (a b : ParseOptions) (chunk chunk' : Chunk) : Prop where
  tree : chunk.body.erase .annotations = chunk'.body.erase .annotations
  body : Akin (a.shared b) chunk.body chunk'.body
  placement : Akin (a.shared b) chunk.placement chunk'.placement
  comments : a.collectComments = b.collectComments → Akin (a.shared b) chunk.comments chunk'.comments
  globals : a.trackScopes = b.trackScopes → Akin (a.shared b) chunk.globals chunk'.globals

/-- Options that differ only in what is kept with a tree decide neither whether a source is accepted nor what
tree or error it gives. -/
theorem parse_annotated (h : a.ReadAlike b) (source : Text) :
    (∃ chunk chunk', parse a source = .ok chunk ∧ parse b source = .ok chunk' ∧ chunk.Agrees a b chunk') ∨
      ∃ error, parse a source = .error error ∧ parse b source = .error error := by
  have hchecks : a.checkGotoLabels = true → b.checkGotoLabels = true := fun ha => h.checkGotoLabels ▸ ha
  have hbare : a.Kin .annotations source b := ⟨h.dialect, h.extendedIdentifiers, fun _ _ => rfl⟩
  have hshared : a.Kin (a.shared b) source b :=
    ⟨h.dialect, h.extendedIdentifiers, a.akin_between_shared b source⟩
  have hsame := parse_kin hbare (fun _ => ⟨fun _ _ => rfl, fun _ _ => rfl⟩) hchecks fun _ _ _ => rfl
  have hkept := parse_kin hshared ParseOptions.forgets_shared hchecks fun _ _ => ParseOptions.shared_scope
  rcases hkept with ⟨chunk, chunk', ha, hb, hbody, hplacement, hcomments, hglobals⟩ | ⟨error, ha, hb⟩ |
    ⟨ha, hb, -⟩
  · rcases hsame with ⟨_, _, ha', hb', htree, -⟩ | ⟨_, ha', -⟩ | ⟨hl, hr, -⟩
    · cases ha.symm.trans ha'
      cases hb.symm.trans hb'
      exact .inl ⟨chunk, chunk', ha, hb, htree, hbody, hplacement, hcomments, hglobals⟩
    · cases ha.symm.trans ha'
    · cases hl.symm.trans (h.checkGotoLabels.trans hr)
  · exact .inr ⟨error, ha, hb⟩
  · cases ha.symm.trans (h.checkGotoLabels.trans hb)

/-- A parse that keeps nothing and one that keeps everything. -/
theorem parse_annotated_all : ∃ chunk chunk',
    parse { collectComments := false } "local x = y -- z".toList = .ok chunk ∧
      parse { trackScopes := true, recordLocations := true, recordRanges := true }
        "local x = y -- z".toList = .ok chunk' ∧
      chunk.Agrees { collectComments := false }
        { trackScopes := true, recordLocations := true, recordRanges := true } chunk' := by
  have haccepted : (parse { collectComments := false } "local x = y -- z".toList).toBool = true := by
    decide +kernel
  rcases parse_annotated (a := { collectComments := false })
    (b := { trackScopes := true, recordLocations := true, recordRanges := true }) ⟨rfl, rfl, rfl⟩
    "local x = y -- z".toList with hparses | ⟨error, hleft, -⟩
  · exact hparses
  · rw [hleft] at haccepted
    cases haccepted

end LuaSyntax
